import Qstream.NodeEffects

/-! What a request with a rejected file name does to a master. The name is looked up and its
lease is decided before it is validated, so that files outside the segment root matter. -/
namespace Qstream
open Transfer Runs UnixPath

/-- There may be a regular file under the name, as far as the direct children of the root tell:
its path ends neither at the root, nor above it, nor at a directory that it has led through; the
children that it leads through are directories, and a child that it ends at is a file. -/
structure Dir.MayName (d : Dir) (name : String) : Prop where
  noNul : '\x00' ∉ name.toList
  onward : join d.root name ∉ passed d.root name
  below : ¬ join d.root name <+: d.root
  through : ∀ child, d.root ++ [child] ∈ passed d.root name →
    d.entries.lookup child = some .directory
  last : ∀ child, join d.root name = d.root ++ [child] →
    ∃ data readable modified, d.entries.lookup child = some (.file data readable modified)

theorem Dir.isFile_iff {d : Dir} {name : String} : d.isFile name = true ↔
    ∃ data readable modified, d.lookup name = some (.file data readable modified) := by
  unfold isFile
  split
  next data readable modified heq => simp [heq]
  next hnot => simpa using fun data readable modified heq => hnot data readable modified heq

/-- A world around the root in which the way that the name takes leads to a regular file. -/
def Dir.reaching (d : Dir) (name : String) : Dir :=
  { d with outside := fun p =>
      if p = join d.root name then some (.file [] true 0)
      else if p ∈ passed d.root name then some .directory
      else none }

theorem Dir.MayName.stat_passed {d : Dir} {name : String} (h : d.MayName name) :
    ∀ p ∈ passed d.root name, (d.reaching name).stat p = some .directory := by
  intro p hp
  unfold stat
  split_ifs with habove hchild
  · rfl
  · have hne : p ≠ [] := fun hnil => habove (hnil ▸ List.nil_prefix)
    obtain ⟨child, rfl⟩ := exists_child hne hchild
    rw [List.getLast?_concat, Option.bind_some, ← h.through child hp]
    rfl
  · have hnot : p ≠ join d.root name := fun heq => h.onward (heq ▸ hp)
    simp only [reaching, if_neg hnot, if_pos hp]

theorem Dir.MayName.stat_join {d : Dir} {name : String} (h : d.MayName name) :
    ∃ data readable modified,
      (d.reaching name).stat (join d.root name) = some (.file data readable modified) := by
  have hroot : (d.reaching name).root = d.root := rfl
  rw [stat, hroot, if_neg h.below]
  split_ifs with hchild
  · have hne : join d.root name ≠ [] := fun hnil => h.below (hnil ▸ List.nil_prefix)
    obtain ⟨child, heq⟩ := exists_child hne hchild
    rw [heq, List.getLast?_concat, Option.bind_some]
    exact h.last child heq
  · exact ⟨[], true, 0, if_pos rfl⟩

/-- What stands outside the root's children can make a name that of a file exactly when they
allow it. -/
theorem Dir.mayName_iff {d : Dir} {name : String} :
    d.MayName name ↔ ∃ outside, ({ d with outside := outside } : Dir).isFile name = true := by
  simp only [isFile_iff]
  constructor
  · intro h
    refine ⟨(d.reaching name).outside, ?_⟩
    have hreach : '\x00' ∉ name.toList ∧ ∀ p ∈ passed d.root name,
        (d.reaching name).stat p = some .directory := ⟨h.noNul, h.stat_passed⟩
    change ∃ data readable modified, (d.reaching name).lookup name = some (.file data readable modified)
    rw [lookup, FileSystem.resolve]
    exact (if_pos hreach).symm ▸ h.stat_join
  · rintro ⟨outside, data, readable, modified, hfile⟩
    unfold lookup FileSystem.resolve at hfile
    split at hfile
    next hreach =>
      refine ⟨hreach.1, fun hmem => ?_, fun habove => ?_, fun child hmem => ?_, fun child heq => ?_⟩
      · rw [hreach.2 _ hmem] at hfile
        cases hfile
      · rw [stat, if_pos habove] at hfile
        cases hfile
      · exact (stat_child { d with outside := outside } child).symm.trans (hreach.2 _ hmem)
      · refine ⟨data, readable, modified, ?_⟩
        rw [← hfile, heq]
        exact (stat_child { d with outside := outside } child).symm
    next => cases hfile

namespace Node
variable {n : Node} {cfg : NodeSettings} {clk : Clock} {w : World} {id : ℕ} {filename : String}
  {src : SocketAddr}

/-- What decides about a request with a rejected name: how it fares with the origin. -/
theorem handle_rejected_sent (hinvalid : validFilename filename = false) :
    (n.handle cfg w (.segmentRequest id filename) src).2.1 =
      [(n.registry.notFoundMessage id
        (decide (n.admission cfg (w.after 2).clk filename src = .denied)), src)] := by
  have hresult := originSeedAllowed_result (n.touchPeer w.clk src) cfg (w.after 2).clk filename src
  rw [admission_touchPeer] at hresult
  have hreg : ((n.touchPeer w.clk src).originSeedAllowed cfg (w.after 2).clk filename src).1.registry =
      n.registry := originSeedAllowed_registry _ _ _ _ _
  simp only [handle, hreg]
  by_cases hdenied : n.admission cfg (w.after 2).clk filename src = .denied
  · rw [if_neg fun h => hresult.mp h hdenied, decide_eq_true hdenied]
    rfl
  · rw [if_pos (hresult.mpr hdenied), decide_eq_false hdenied, TransferRegistry.serve,
      if_pos (by simp [hinvalid])]
    rfl

theorem handle_request_leases (f : String) :
    (n.handle cfg w (.segmentRequest id filename) src).1.leases f =
      if f = filename then
        n.leasesAfter filename (w.clk 2) src (n.admission cfg (w.after 2).clk filename src)
      else n.leases f := by
  have h := leases_originSeedAllowed (n.touchPeer w.clk src) cfg (w.after 2).clk filename src f
  rw [admission_touchPeer] at h
  refine Eq.trans h ?_
  have hviable : (n.touchPeer w.clk src).viableLeases filename ((w.after 2).clk 0) =
      n.viableLeases filename (w.clk 2) := by
    simp only [viableLeases, viable_touchPeer]
    rfl
  cases n.admission cfg (w.after 2).clk filename src <;> simp only [leasesAfter, hviable] <;> rfl

theorem handle_request_counters :
    (n.handle cfg w (.segmentRequest id filename) src).1.originSeedAssignments =
      n.originSeedAssignments +
        (match n.admission cfg (w.after 2).clk filename src with
        | .leased | .recovery => 1
        | _ => 0) ∧
    (n.handle cfg w (.segmentRequest id filename) src).1.originSeedDenials =
      n.originSeedDenials +
        (match n.admission cfg (w.after 2).clk filename src with
        | .denied => 1
        | _ => 0) := by
  have heq := originSeedAllowed_eq (n.touchPeer w.clk src) cfg (w.after 2).clk filename src
  rw [admission_touchPeer] at heq
  have hcount : (n.handle cfg w (.segmentRequest id filename) src).1.originSeedAssignments =
      ((n.touchPeer w.clk src).originSeedAllowed cfg (w.after 2).clk filename src).1.originSeedAssignments ∧
      (n.handle cfg w (.segmentRequest id filename) src).1.originSeedDenials =
      ((n.touchPeer w.clk src).originSeedAllowed cfg (w.after 2).clk filename src).1.originSeedDenials :=
    ⟨rfl, rfl⟩
  rw [hcount.1, hcount.2, heq]
  cases n.admission cfg (w.after 2).clk filename src <;> exact ⟨rfl, rfl⟩

/-- What a request leaves as it was. -/
structure LeavesSeeding (n n' : Node) : Prop where
  leases : ∀ f, n'.leases f = n.leases f
  assignments : n'.originSeedAssignments = n.originSeedAssignments
  denials : n'.originSeedDenials = n.originSeedDenials

/-- A request has no effect on the seeding and does not depend on what stands outside the direct
children of the segment root. -/
structure Harmless (n : Node) (cfg : NodeSettings) (w : World) (id : ℕ) (filename : String)
    (src : SocketAddr) : Prop where
  unchanged : n.LeavesSeeding (n.handle cfg w (.segmentRequest id filename) src).1
  probesNothing : ∀ dir, dir.root = n.registry.dir.root → dir.entries = n.registry.dir.entries →
    ((n.withDir dir).handle cfg w (.segmentRequest id filename) src).2.1 =
      (n.handle cfg w (.segmentRequest id filename) src).2.1 ∧
    (n.handle cfg w (.segmentRequest id filename) src).1.LeavesSeeding
      ((n.withDir dir).handle cfg w (.segmentRequest id filename) src).1

/-- A request leaves the seeding alone when it is exempt, or asks for a lease it holds. -/
theorem leavesSeeding_iff :
    n.LeavesSeeding (n.handle cfg w (.segmentRequest id filename) src).1 ↔
      n.admission cfg (w.after 2).clk filename src = .exempt ∨
      n.admission cfg (w.after 2).clk filename src = .holder ∧
        n.viableLeases filename (w.clk 2) = n.leases filename := by
  have hleases := @handle_request_leases n cfg w id filename src
  obtain ⟨hassigned, hdenied⟩ := @handle_request_counters n cfg w id filename src
  constructor
  · intro h
    rw [h.assignments] at hassigned
    rw [h.denials] at hdenied
    have hsame := (hleases filename).symm.trans (h.leases filename)
    rw [if_pos rfl] at hsame
    cases hadm : n.admission cfg (w.after 2).clk filename src with
    | exempt => exact .inl rfl
    | holder =>
      rw [hadm] at hsame
      exact .inr ⟨rfl, hsame⟩
    | leased => simp [hadm] at hassigned
    | recovery => simp [hadm] at hassigned
    | denied => simp [hadm] at hdenied
  · rintro (hadm | ⟨hadm, hviable⟩)
    · rw [hadm] at hleases hassigned hdenied
      refine ⟨fun f => ?_, hassigned, hdenied⟩
      rw [hleases]
      split
      next hf => rw [hf]; rfl
      next => rfl
    · rw [hadm] at hleases hassigned hdenied
      refine ⟨fun f => ?_, hassigned, hdenied⟩
      rw [hleases]
      split
      next hf => rw [hf]; exact hviable
      next => rfl

/-- How a request would fare if the files were those of `dir`. -/
theorem admission_withDir (dir : Dir) :
    (n.withDir dir).admission cfg clk filename src =
      if n.role ≠ .master ∨ ¬ dir.isFile filename then .exempt
      else if src ∈ n.viableLeases filename (clk 0) then .holder
      else if (n.classHolders filename (clk 0) src).card < cfg.originSeeders then .leased
      else if ¬ n.otherSource filename (clk 1) src then .recovery
      else .denied := rfl

/-- No regular file can be under the name, or the requester already holds a lease on it, and all
leases on it are still good. -/
def RejectedQuietly (n : Node) (w : World) (filename : String) (src : SocketAddr) : Prop :=
  ¬ n.registry.dir.MayName filename ∨
    src ∈ n.leases filename ∧ ∀ c ∈ n.leases filename, n.viable filename (w.clk 2) c = true

/-- With such leases on a name, it does not matter whether the file exists. -/
theorem admission_of_leases (hsrc : src ∈ n.leases filename)
    (hall : ∀ c ∈ n.leases filename, n.viable filename (w.clk 2) c = true) (dir : Dir) :
    (n.withDir dir).admission cfg (w.after 2).clk filename src = .exempt ∨
      (n.withDir dir).admission cfg (w.after 2).clk filename src = .holder := by
  rw [admission_withDir]
  split
  next => exact .inl rfl
  next => exact .inr (if_pos (mem_viableLeases.mpr ⟨hsrc, hall src hsrc⟩))

/-- Directories with the same path and children are the same but for what is outside. -/
theorem isFile_of_not_mayName {d dir : Dir} (hroot : dir.root = d.root)
    (hentries : dir.entries = d.entries) (hnot : ¬ d.MayName filename) :
    dir.isFile filename = false := by
  by_contra hfile
  refine hnot (Dir.mayName_iff.mpr ⟨dir.outside, ?_⟩)
  rw [← hroot, ← hentries]
  exact Bool.not_eq_false _ ▸ hfile

/-- Directories with the same direct children make the same answer to a request that is not
denied under either. -/
theorem sent_withDir (hinvalid : validFilename filename = false) {dir : Dir}
    (hentries : dir.entries = n.registry.dir.entries)
    (hdir : (n.withDir dir).admission cfg (w.after 2).clk filename src ≠ .denied)
    (hown : n.admission cfg (w.after 2).clk filename src ≠ .denied) :
    ((n.withDir dir).handle cfg w (.segmentRequest id filename) src).2.1 =
      (n.handle cfg w (.segmentRequest id filename) src).2.1 := by
  have havailable : (n.withDir dir).registry.segmentAvailability =
      n.registry.segmentAvailability := by
    have hnames : (n.withDir dir).registry.dir.names = n.registry.dir.names := by
      rw [Dir.names, Dir.names, ← hentries]
      rfl
    simp only [TransferRegistry.segmentAvailability, hnames]
  rw [handle_rejected_sent hinvalid, handle_rejected_sent hinvalid, decide_eq_false hdir,
    decide_eq_false hown, TransferRegistry.notFoundMessage, TransferRegistry.notFoundMessage,
    havailable]

theorem LeavesSeeding.symm {n n' : Node} (h : n.LeavesSeeding n') : n'.LeavesSeeding n :=
  ⟨fun f => (h.leases f).symm, h.assignments.symm, h.denials.symm⟩

theorem LeavesSeeding.trans {n n' n'' : Node} (h : n.LeavesSeeding n')
    (h' : n'.LeavesSeeding n'') : n.LeavesSeeding n'' :=
  ⟨fun f => (h'.leases f).trans (h.leases f), h'.assignments.trans h.assignments,
    h'.denials.trans h.denials⟩

theorem leavesSeeding_withDir (dir : Dir) (n' : Node) :
    (n.withDir dir).LeavesSeeding n' ↔ n.LeavesSeeding n' :=
  ⟨fun h => ⟨h.leases, h.assignments, h.denials⟩, fun h => ⟨h.leases, h.assignments, h.denials⟩⟩

/-- A request with a rejected name is harmless exactly when no file can be under the name, or when
its lease is already there. -/
theorem harmless_iff (cfg : NodeSettings) (n : Node) (hmaster : n.role = .master) (w : World)
    (id : ℕ) (filename : String) (src : SocketAddr) (hinvalid : validFilename filename = false) :
    n.Harmless cfg w id filename src ↔ n.RejectedQuietly w filename src := by
  have hself : n.withDir n.registry.dir = n := rfl
  constructor
  · intro h
    by_cases hmay : n.registry.dir.MayName filename
    swap
    · exact .inl hmay
    -- some directory with this path and these children has a file under the name
    obtain ⟨outside, hfile⟩ := Dir.mayName_iff.mp hmay
    set dir : Dir := { n.registry.dir with outside := outside }
    have hquiet : (n.withDir dir).LeavesSeeding
        ((n.withDir dir).handle cfg w (.segmentRequest id filename) src).1 :=
      (leavesSeeding_withDir dir _).mpr (h.unchanged.trans (h.probesNothing dir rfl rfl).2)
    rcases leavesSeeding_iff.mp hquiet with hexempt | ⟨hholder, hviable⟩
    · rw [admission_withDir, if_neg (by simp [hmaster, hfile])] at hexempt
      split at hexempt
      · cases hexempt
      split at hexempt
      · cases hexempt
      split at hexempt <;> cases hexempt
    · have hleases : n.viableLeases filename (w.clk 2) = n.leases filename := hviable
      have hsrc : src ∈ n.viableLeases filename ((w.after 2).clk 0) := by
        by_contra hnot
        rw [admission_withDir, if_neg (by simp [hmaster, hfile]), if_neg hnot] at hholder
        split at hholder
        · cases hholder
        split at hholder <;> cases hholder
      refine .inr ⟨(mem_viableLeases.mp hsrc).1, fun c hc => ?_⟩
      rw [← hleases] at hc
      exact (mem_viableLeases.mp hc).2
  · intro h
    have hcases : ∀ dir, dir.root = n.registry.dir.root →
        dir.entries = n.registry.dir.entries →
        (n.withDir dir).admission cfg (w.after 2).clk filename src = .exempt ∨
        (n.withDir dir).admission cfg (w.after 2).clk filename src = .holder ∧
          n.viableLeases filename (w.clk 2) = n.leases filename := by
      intro dir hroot hentries
      rcases h with hnot | ⟨hsrc, hall⟩
      · have hno : dir.isFile filename = false := isFile_of_not_mayName hroot hentries hnot
        exact .inl (by rw [admission_withDir, if_pos (.inr (by simp [hno]))])
      · have hviable : n.viableLeases filename (w.clk 2) = n.leases filename :=
          Finset.filter_true_of_mem hall
        exact (admission_of_leases hsrc hall dir).imp_right fun hholder => ⟨hholder, hviable⟩
    have hnot {a : Admission} {p : Prop} (ha : a = .exempt ∨ a = .holder ∧ p) : a ≠ .denied := by
      rcases ha with rfl | ⟨rfl, -⟩ <;> simp
    have hown := hcases n.registry.dir rfl rfl
    rw [hself] at hown
    have hkeep := (@leavesSeeding_iff _ _ _ id _ _).mpr hown
    refine ⟨hkeep, fun dir hroot hentries => ⟨?_, ?_⟩⟩
    · exact sent_withDir hinvalid hentries (hnot (hcases dir hroot hentries)) (hnot hown)
    · have hthere := (@leavesSeeding_iff _ _ _ id _ _).mpr (hcases dir hroot hentries)
      exact hkeep.symm.trans ((leavesSeeding_withDir dir _).mp hthere)

/-- In every state of a master, a request with a rejected name is harmless exactly when no file
can be under the name, or when its lease is already there. -/
theorem rejected_filename_harmless_iff (cfg : NodeSettings) (clk : Clock) (name manifestName : String)
    (dir : Dir) (localAddr : SocketAddr) (nonce : UInt32) (es : List NodeEvent) (n : Node)
    (hrun : Run (Step cfg) (.new clk name .master manifestName dir localAddr nonce) es n)
    (w : World) (id : ℕ) (filename : String) (src : SocketAddr)
    (hinvalid : validFilename filename = false) :
    n.Harmless cfg w id filename src ↔ n.RejectedQuietly w filename src := by
  have hmaster : n.self.2.1 = .master := by
    refine hrun.invariant (I := fun n => n.self.2.1 = .master) (fun n e n' hn hstep => ?_) rfl
    rw [hstep.self_eq]
    exact hn
  exact harmless_iff cfg n hmaster w id filename src hinvalid

/-- A master whose neighbour directory holds a file. -/
def besideKeys : Node :=
  .new (fun _ => 0) "master" .master "live.m3u8"
    ⟨∅, ["srv"], fun p => if p = ["key"] then some (.file [1] true 0) else none⟩ peerB 7

theorem hidden_filename_harmless :
    besideKeys.Harmless ⟨defaultSettings, 2, 0⟩ ⟨fun _ => 0, default, .ok, 0⟩ 1 ".key" peerA :=
  (rejected_filename_harmless_iff ⟨defaultSettings, 2, 0⟩ (fun _ => 0) "master" "live.m3u8" _ peerB 7
    [] besideKeys (.nil _) ⟨fun _ => 0, default, .ok, 0⟩ 1 ".key" peerA (by decide +kernel)).mpr
    (.inl fun h => by
      obtain ⟨data, readable, modified, hfile⟩ := h.last ".key" (by decide +kernel)
      cases hfile)

/-- A rejected request for a file outside the segment root is counted as a seed, and it is not
when the file does not exist. -/
theorem outside_file_is_probed :
    validFilename "../key" = false ∧
      (besideKeys.handle ⟨defaultSettings, 2, 0⟩ ⟨fun _ => 0, default, .ok, 0⟩
        (.segmentRequest 1 "../key") peerA).1.originSeedAssignments = 1 ∧
      ((besideKeys.withDir ⟨∅, ["srv"], fun _ => none⟩).handle ⟨defaultSettings, 2, 0⟩
        ⟨fun _ => 0, default, .ok, 0⟩ (.segmentRequest 1 "../key") peerA).1.originSeedAssignments = 0 ∧
      ¬ besideKeys.Harmless ⟨defaultSettings, 2, 0⟩ ⟨fun _ => 0, default, .ok, 0⟩ 1 "../key" peerA := by
  refine ⟨by decide +kernel, by decide +kernel, by decide +kernel, fun h => ?_⟩
  have hcount := h.unchanged.assignments
  exact absurd hcount (by decide +kernel)

end Node
end Qstream
