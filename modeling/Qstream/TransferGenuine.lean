import Qstream.NodeInventory
import Qstream.PeerPulls

/-! The segments of one broadcast, and when the files, transfers and datagrams of a node are
theirs. A transfer id stands for one file as long as it is in use. -/
namespace Qstream
open Transfer Text

/-- A name that the segments of a broadcast have. -/
def IsSegment (f : String) : Prop := (segmentNumber f).isSome

/-- What each segment holds; none is longer than the packet numbers reach. -/
structure Broadcast where
  segment : String → Option Bytes
  short : ∀ f file, segment f = some file → file.length ≤ 65535 * SEGMENT_PACKET_SIZE

theorem IsSegment.toList {f : String} (h : IsSegment f) : ∃ digits : List Char,
    f.toList = "seg_".toList ++ (digits ++ ".ts".toList) ∧
      ∀ c ∈ digits, c = '+' ∨ isAsciiDigit c = true := by
  obtain ⟨n, hn⟩ := Option.isSome_iff_exists.mp h
  simp only [segmentNumber, Option.bind_eq_bind, Option.bind_eq_some_iff] at hn
  obtain ⟨rest, hrest, digits, hdigits, hparse⟩ := hn
  exact ⟨digits, by rw [stripPrefix_eq_some hrest, stripSuffix_eq_some hdigits],
    fun _ => mem_of_parseU64 hparse⟩

theorem IsSegment.plain {f : String} (h : IsSegment f) : plainName f = true := by
  obtain ⟨digits, hf, hdigits⟩ := h.toList
  have hnot {c : Char} (hfixed : c ∉ "seg_".toList ++ ".ts".toList) (hplus : c ≠ '+')
      (hdigit : isAsciiDigit c = false) : c ∉ f.toList := by
    intro hmem
    rw [hf, List.mem_append, List.mem_append] at hmem
    rcases hmem with hmem | hmem | hmem
    · exact hfixed (List.mem_append_left _ hmem)
    · exact (hdigits c hmem).elim hplus (by simp [hdigit])
    · exact hfixed (List.mem_append_right _ hmem)
  have hne {name : String} (hname : name.toList.head? ≠ some 's') : f ≠ name := by
    rintro rfl
    exact hname (by rw [hf]; rfl)
  simp only [plainName, decide_eq_true_eq]
  exact ⟨hne (by decide), hne (by decide), hne (by decide),
    hnot (by decide) (by decide) (by decide), hnot (by decide) (by decide) (by decide)⟩

theorem IsSegment.ne_tmpName {f : String} (h : IsSegment f) (name : String) : f ≠ tmpName name := by
  obtain ⟨digits, hf, -⟩ := h.toList
  refine ne_of_tmpName fun htmp => ?_
  have hsuffix : ".ts".toList <:+ f.toList := ⟨"seg_".toList ++ digits, by rw [hf, List.append_assoc]⟩
  rcases List.suffix_or_suffix_of_suffix htmp hsuffix with hs | hs
  · exact absurd hs (by decide)
  · exact absurd hs (by decide)

theorem not_isSegment_live : ¬ IsSegment LIVE_MANIFEST := by
  unfold IsSegment
  decide

theorem not_isSegment_playback : ¬ IsSegment PLAYBACK_MANIFEST := by
  unfold IsSegment
  decide

variable (B : Broadcast)

namespace Dir

/-- What can be read under a segment's name is that segment. -/
def Authentic (d : Dir) : Prop := ∀ f file, IsSegment f → d.read f = some file → B.segment f = some file

variable {B} {d d' : Dir}

theorem Authentic.of_lookup (h : d.Authentic B)
    (hsame : ∀ f, IsSegment f → d'.lookup f = d.lookup f ∨ d'.lookup f = none) : d'.Authentic B := by
  intro f file hf hread
  rcases hsame f hf with heq | hnone
  · exact h f file hf (by rwa [Dir.read, heq] at hread)
  · simp [Dir.read, hnone] at hread

/-- Saving a file keeps the directory authentic, if a segment is saved as what it is. -/
theorem Authentic.saveAtomic (h : d.Authentic B) (io : SaveIo) (wall : ℕ) {name : String}
    {data : Bytes} (hdata : IsSegment name → io = .ok → B.segment name = some data) :
    (d.saveAtomic io wall name data).1.Authentic B := by
  intro f file hf hread
  have htmp := hf.ne_tmpName name
  by_cases hname : f = name
  · subst hname
    by_cases hio : io = .ok
    · subst hio
      rw [Dir.read, Dir.lookup_saveAtomic_ok _ _ hf.plain] at hread
      rw [hdata hf rfl]
      exact hread
    · have hsame : (d.saveAtomic io wall f data).1.lookup f = d.lookup f := by
        simp only [Dir.lookup_plainName hf.plain, entries_saveAtomic_failed hio _ _ _ htmp]
      exact h f file hf (by rwa [Dir.read, hsame] at hread)
  · rw [Dir.read, Dir.lookup_saveAtomic _ _ _ _ _ (not_visited hf.plain hname _)
      (not_visited hf.plain htmp _)] at hread
    exact h f file hf hread

end Dir

/-! Datagrams and transfers, when `pulled` tells which file an id stands for. -/

/-- A request names the file of its id, and content is a packet of it. -/
def Message.Genuine (pulled : ℕ → String) : Message → Prop
  | .segmentRequest i name => pulled i = name
  | .segmentContents i p t d => IsSegment (pulled i) → ∃ file, B.segment (pulled i) = some file ∧
      t = packetCount file.length ∧ 1 ≤ p ∧ p ≤ packetCount file.length ∧ d = packetOf file p
  | _ => True

theorem Message.Reply.genuine {m : Message} (h : m.Reply) (pulled : ℕ → String) :
    m.Genuine B pulled := by
  cases h <;> trivial

namespace Transfer

/-- A download of `name` that holds packets of nothing else, and has saved nothing else. -/
structure ReceiverTransfer.Authentic (name : String) (r : ReceiverTransfer) : Prop where
  named : r.filename = name
  holds : ∀ file, IsSegment name → B.segment name = some file → r.Holds file
  window : ∀ file, IsSegment name → B.segment name = some file → r.outcome = none →
    r.Fresh ∨ ∃ s c, r.InRange (packetCount file.length) s c
  saved : IsSegment name → r.outcome = some (.ok ()) →
    ∃ file, B.segment name = some file ∧ r.savedBytes = some file.length

structure SenderTransfer.Authentic (name : String) (s : SenderTransfer) : Prop where
  window : s.WindowInv
  sends : IsSegment name → B.segment name = some s.file

structure TransferRegistry.Authentic (pulled : ℕ → String) (reg : TransferRegistry) : Prop where
  files : reg.dir.Authentic B
  senders : ∀ i s, reg.senders.lookup i = some s → s.transferId = i ∧ s.Authentic B (pulled i)
  receivers : ∀ i r, reg.receivers.lookup i = some r → r.transferId = i ∧ r.Authentic B (pulled i)

variable {B} {cfg : Settings} {w : World} {dir : Dir} {name : String} {r : ReceiverTransfer}

namespace SenderTransfer

theorem tick_remote (cfg : Settings) (s : SenderTransfer) (now : ℕ) :
    (s.tick cfg now).1.remote = s.remote := by
  rcases tick_cases cfg s now with ⟨-, -, ht⟩ | ⟨-, -, ht⟩ | ⟨-, -, ht⟩ | ⟨-, -, ht⟩
  · rw [ht]
    exact (chunkSent_same cfg s now).2.1
  · rw [ht]
  · rw [ht]
  · rw [ht]

theorem onProgress_remote (cfg : Settings) (clk : Clock) (s : SenderTransfer)
    (a b : ℕ) : (s.onProgress cfg clk a b).remote = s.remote := by
  unfold onProgress
  dsimp only
  split <;> rfl

end SenderTransfer

namespace ReceiverTransfer

theorem new_authentic (cfg : Settings) (clk : Clock) (id : ℕ) (remote : SocketAddr) (name : String) :
    (new cfg clk id remote name).Authentic B name where
  named := rfl
  holds _ _ _ p d hp := by simp [new] at hp
  window _ _ _ _ := .inl (new_fresh cfg clk id remote name)
  saved _ hok := by simp [new] at hok

/-- A packet of the download's own file leaves the download and the directory authentic. -/
theorem Authentic.onContent (h : r.Authentic B name) (hdir : dir.Authentic B) {p t : ℕ} {d : Bytes}
    (hpacket : IsSegment name → ∃ file, B.segment name = some file ∧ t = packetCount file.length ∧
      1 ≤ p ∧ p ≤ packetCount file.length ∧ d = packetOf file p) :
    (r.onContent cfg w dir p t d).1.Authentic B name ∧
      (r.onContent cfg w dir p t d).2.2.Authentic B := by
  have hnamed : (r.onContent cfg w dir p t d).1.filename = name :=
    (onContent_spec cfg w r dir p t d).1.filename.trans h.named
  by_cases hseg : IsSegment name
  · obtain ⟨file, hfile, rfl, -, -, rfl⟩ := hpacket hseg
    have honly {file' : Bytes} (h' : B.segment name = some file') : file' = file :=
      Option.some.inj (h'.symm.trans hfile)
    by_cases hout : r.outcome = none
    · obtain ⟨-, hholds, hend, -⟩ := @Link.receive_packet
        ⟨cfg, cfg, 0, ⟨.v4 ⟨0, 0, 0, 0⟩, 0⟩, ⟨.v4 ⟨0, 0, 0, 0⟩, 0⟩, name, file⟩ r w dir p
        (B.short name file hfile) (h.holds file hseg hfile) (h.window file hseg hfile hout)
      rw [h.named] at hend
      refine ⟨{ named := hnamed, holds := ?_, window := ?_, saved := ?_ }, ?_⟩
      · intro file' _ h'
        exact honly h' ▸ hholds
      · intro file' _ h' hnone
        rw [honly h']
        rcases hend with hin | ⟨-, e, he⟩ | ⟨ho, -⟩
        · exact .inr hin
        · exact absurd (hnone.symm.trans he) (by simp)
        · exact absurd (hnone.symm.trans ho) (by simp)
      · intro _ hok
        rcases hend with ⟨s, c, hin⟩ | ⟨-, e, he⟩ | ⟨-, hbytes, -⟩
        · exact absurd (hin.outcome.symm.trans hok) (by simp)
        · exact absurd (he.symm.trans hok) (by simp)
        · exact ⟨file, hfile, hbytes⟩
      · rcases onContent_dir cfg w r dir p (packetCount file.length) (packetOf file p) with
          hsame | ⟨-, data, hsaved, hok⟩
        · rwa [hsame]
        · rw [hsaved, h.named]
          refine hdir.saveAtomic _ _ fun _ hio => ?_
          -- a save that succeeds has written the file itself
          rcases hend with ⟨s, c, hin⟩ | ⟨hno, -⟩ | ⟨-, -, hdisk⟩
          · exact absurd (hin.outcome.symm.trans (hok hio)) (by simp)
          · exact absurd hio hno
          · change (r.onContent cfg w dir p (packetCount file.length)
              (packetOf file p)).2.2.entries.lookup name = _ at hdisk
            rw [hsaved, h.named, hio, Dir.entries_saveAtomic_ok, if_pos rfl] at hdisk
            cases hdisk
            exact hfile
    · obtain ⟨hr, hd⟩ := @onContent_ignored cfg w r dir p (packetCount file.length)
        (packetOf file p) (.inl (Option.isSome_iff_ne_none.mpr hout))
      rw [hr, hd]
      exact ⟨h, hdir⟩
  · refine ⟨{ named := hnamed, holds := fun _ hs => absurd hs hseg,
              window := fun _ hs => absurd hs hseg, saved := fun hs => absurd hs hseg }, ?_⟩
    rcases onContent_dir cfg w r dir p t d with hsame | ⟨-, data, hsaved, -⟩
    · rwa [hsame]
    · rw [hsaved, h.named]
      exact hdir.saveAtomic _ _ fun hs => absurd hs hseg

/-- What ends or waits on a download without a packet. -/
theorem Authentic.of_progress {r' : ReceiverTransfer} (h : r.Authentic B name)
    (hsame : SameProgress r r')
    (hout : r'.outcome = r.outcome ∨ ∃ e, r'.outcome = some (.error e)) : r'.Authentic B name where
  named := hsame.same.filename.trans h.named
  holds file hs hf p d hp := h.holds file hs hf p d (hsame.packets ▸ hp)
  window file hs hf hnone := by
    refine hsame.window hnone (h.window file hs hf ?_)
    rcases hout with heq | ⟨e, he⟩
    · exact heq.symm.trans hnone
    · exact absurd (hnone.symm.trans he) (by simp)
  saved hs hok := by
    rcases hout with heq | ⟨e, he⟩
    · obtain ⟨file, hf, hbytes⟩ := h.saved hs (heq.symm.trans hok)
      exact ⟨file, hf, hsame.savedBytes.trans hbytes⟩
    · exact absurd (hok.symm.trans he) (by simp)

end ReceiverTransfer

theorem SenderTransfer.Authentic.of_tick {s t : SenderTransfer} {now : ℕ} {sent : List Message}
    (h : s.Authentic B name) (htick : s.tick cfg now = (t, sent, .ok ())) : t.Authentic B name where
  window := tick_windowInv htick h.window
  sends hs := by rw [(tick_same htick).1]; exact h.sends hs

/-- What a sender emits is a packet of its segment. -/
theorem SenderTransfer.Authentic.genuine {s : SenderTransfer} {pulled : ℕ → String} {now : ℕ}
    {m : Message} (h : s.Authentic B (pulled s.transferId)) (hm : m ∈ (s.tick cfg now).2.1) :
    m.Genuine B pulled := by
  obtain ⟨p, h1, hN, rfl⟩ := Link.packet_of_mem_tick
    (P := ⟨cfg, cfg, s.transferId, s.remote, s.remote, "", s.file⟩) h.window rfl rfl hm
  exact fun hs => ⟨s.file, h.sends hs, rfl, h1, hN, rfl⟩

namespace TransferRegistry
variable {reg : TransferRegistry} {pulled : ℕ → String} {x : Message × SocketAddr}

theorem new_authentic {dir : Dir} (h : dir.Authentic B) : (new dir).Authentic B pulled where
  files := h
  senders i s hs := by simp [new] at hs
  receivers i r hr := by simp [new] at hr

theorem Authentic.withDir (h : reg.Authentic B pulled) {dir : Dir} (hdir : dir.Authentic B) :
    { reg with dir := dir }.Authentic B pulled := ⟨hdir, h.senders, h.receivers⟩

theorem Authentic.withEvents (h : reg.Authentic B pulled) (events : List RegEvent) :
    { reg with events := events }.Authentic B pulled := ⟨h.files, h.senders, h.receivers⟩

theorem Authentic.insertSender (h : reg.Authentic B pulled) {i : ℕ} {s : SenderTransfer}
    (hs : s.transferId = i ∧ s.Authentic B (pulled i)) :
    { reg with senders := reg.senders.insert i s }.Authentic B pulled where
  files := h.files
  senders j t ht := by
    dsimp only at ht
    rw [HashMap.lookup_insert'] at ht
    split at ht
    next heq =>
      cases ht
      exact heq ▸ hs
    next => exact h.senders j t ht
  receivers := h.receivers

theorem Authentic.insertReceiver (h : reg.Authentic B pulled) {i : ℕ} {r : ReceiverTransfer}
    (hr : r.transferId = i ∧ r.Authentic B (pulled i)) :
    { reg with receivers := reg.receivers.insert i r }.Authentic B pulled where
  files := h.files
  senders := h.senders
  receivers j t ht := by
    dsimp only at ht
    rw [HashMap.lookup_insert'] at ht
    split at ht
    next heq =>
      cases ht
      exact heq ▸ hr
    next => exact h.receivers j t ht

/-- A request is served from the segment its id stands for. -/
theorem Authentic.serve (h : reg.Authentic B pulled) (clk : Clock) {i : ℕ} {f : String}
    (hm : pulled i = f) (src : SocketAddr) : (reg.serve clk i f src).1.Authentic B pulled := by
  rcases serve_cases clk reg i f src with ⟨-, file, hread, heq⟩ | ⟨-, heq⟩
  · rw [heq]
    refine h.insertSender ⟨rfl, SenderTransfer.new_windowInv .., fun hs => ?_⟩
    exact h.files _ file hs (hm ▸ hread)
  · rw [heq]
    exact h.withEvents _

theorem Authentic.onContent (h : reg.Authentic B pulled) (w : World) {i p t : ℕ} {d : Bytes}
    (hm : (Message.segmentContents i p t d).Genuine B pulled) :
    (reg.onContent cfg w i p t d).1.Authentic B pulled := by
  simp only [TransferRegistry.onContent]
  split
  next r hr =>
    obtain ⟨hid, hrec⟩ := h.receivers i r hr
    obtain ⟨hrec', hdir⟩ : (r.onContent cfg w reg.dir p t d).1.Authentic B (pulled i) ∧
        (r.onContent cfg w reg.dir p t d).2.2.Authentic B := hrec.onContent h.files hm
    exact (h.withDir hdir).insertReceiver
      ⟨(ReceiverTransfer.onContent_spec cfg w r reg.dir p t d).1.transferId.trans hid, hrec'⟩
  next => exact h

theorem Authentic.onAck (h : reg.Authentic B pulled) (clk : Clock) (i : ℕ) (ackType : AckType)
    (a b : ℕ) : (reg.onAck cfg clk i ackType a b).Authentic B pulled := by
  rcases onAck_cases cfg clk reg i ackType a b with ⟨s, -, -, heq⟩ | ⟨s, hs, -, heq⟩ | ⟨-, heq⟩
  · rw [heq]
    refine ⟨h.files, fun j t ht => ?_, h.receivers⟩
    dsimp only at ht
    rw [HashMap.lookup_erase'] at ht
    split at ht
    next => cases ht
    next => exact h.senders j t ht
  · rw [heq]
    obtain ⟨hid, hsend⟩ := h.senders i s hs
    obtain ⟨hid', -, -, hfile⟩ := SenderTransfer.onProgress_same cfg clk s a b
    refine h.insertSender ⟨hid'.trans hid, SenderTransfer.onProgress_windowInv _ _ _ _ hsend.window,
      fun hseg => ?_⟩
    rw [hfile]
    exact hsend.sends hseg
  · rwa [heq]

theorem Authentic.onNotFound (h : reg.Authentic B pulled) (clk : Clock) (i : ℕ) (retryable : Bool) :
    (reg.onNotFound clk i retryable).1.Authentic B pulled := by
  simp only [TransferRegistry.onNotFound]
  split
  next r hr =>
    obtain ⟨hid, hrec⟩ := h.receivers i r hr
    exact h.insertReceiver ⟨hid, hrec.of_progress ⟨⟨rfl, rfl, rfl, rfl⟩, rfl, rfl, rfl, rfl⟩
      (.inr ⟨_, rfl⟩)⟩
  next => exact h

theorem Authentic.removeReceiver (h : reg.Authentic B pulled) (i : ℕ) :
    (reg.removeReceiver i).Authentic B pulled := by
  refine ⟨h.files, h.senders, fun j r hr => h.receivers j r ?_⟩
  simp only [TransferRegistry.removeReceiver, HashMap.lookup_erase'] at hr
  split at hr
  next => cases hr
  next => exact hr

theorem Authentic.tick (h : reg.Authentic B pulled) (w : World) (now : ℕ) :
    (reg.tick cfg w now).1.Authentic B pulled where
  files := h.files
  senders i t ht := by
    obtain ⟨s, sent, hs, htick⟩ := tick_senders ht
    obtain ⟨hid, hsend⟩ := h.senders i s hs
    exact ⟨(SenderTransfer.tick_same htick).2.1.trans hid, hsend.of_tick htick⟩
  receivers i t ht := by
    obtain ⟨r, hr, rfl⟩ := tick_receivers ht
    obtain ⟨hid, hrec⟩ := h.receivers i r hr
    obtain ⟨hprog, hout, -⟩ := ReceiverTransfer.onTick_spec cfg r now fun j => w.clk (j + i)
    exact ⟨hprog.same.transferId.trans hid, hrec.of_progress hprog (hout.imp_right fun he => he.2)⟩

/-- The timers of genuine transfers send nothing else. -/
theorem Authentic.mem_tick (h : reg.Authentic B pulled) {now : ℕ} (hx : x ∈ (reg.tick cfg w now).2) :
    x.1.Genuine B pulled := by
  rcases mem_tick_sent hx with ⟨i, s, hs, hsent⟩ | ⟨i, r, hr, hsent⟩
  · obtain ⟨rfl, hsend⟩ := h.senders i s hs
    exact hsend.genuine hsent
  · obtain ⟨rfl, hrec⟩ := h.receivers i r hr
    obtain ⟨-, -, hmsg⟩ := ReceiverTransfer.onTick_spec cfg r now fun j => w.clk (j + r.transferId)
    rcases hmsg _ hsent with heq | ⟨rg, -, heq⟩
    · rw [heq]
      exact hrec.named.symm
    · rw [heq]
      trivial

end TransferRegistry
end Transfer
end Qstream
