import Qstream.NodeEffects
import Qstream.PeerSelect

/-! The names a node knows its peers under. A peer's address is replaced by a LAN address of
the same name, so a name stands for one node only as long as no two nodes announce it. -/
namespace Qstream
open Transfer Runs

namespace Node
variable {n n' : Node} {a b : SocketAddr}

/-- The name a known peer was last registered under. -/
def names (n : Node) (a : SocketAddr) : Option String := (n.peers.lookup a).map PeerInfo.name

theorem names_eq_none : n.names a = none ↔ a ∉ n.peers := by
  rw [names, Option.map_eq_none_iff, AList.lookup_eq_none]

theorem isSome_names : (n.names a).isSome ↔ a ∈ n.peers := by
  rw [names, Option.isSome_map, AList.lookup_isSome]

/-- The registration that a datagram causes: the name, and whether the source is marked as
reached over the LAN. -/
def introduces (n : Node) (m : Message) (src : SocketAddr) : Option (String × Bool) :=
  match m with
  | .handshakeRequest _ name => some (name, false)
  | .ping nonce name =>
    if nonce = n.beaconNonce ∨ src = n.localAddr ∨ src ∈ n.peers ∨ name = "" then none
    else some (name, isLanSource src)
  | _ => none

/-- What a registration does to the names and the LAN marks. -/
structure Introduced (n n' : Node) (src : SocketAddr) (intro : Option (String × Bool)) : Prop where
  names : ∀ a, n'.names a =
    if a = src then (intro.map Prod.fst).or (n.names a) else n.names a
  lan : ∀ a, n'.isLanPath a = (n.isLanPath a || (intro.any Prod.snd && decide (a = src)))

theorem Introduced.of_same {src : SocketAddr} (hnames : ∀ a, n'.names a = n.names a)
    (hlan : ∀ a, n'.isLanPath a = n.isLanPath a) : Introduced n n' src none where
  names a := by rw [hnames]; simp
  lan a := by rw [hlan]; simp

theorem names_touchPeer (clk : Clock) (src a : SocketAddr) :
    (n.touchPeer clk src).names a = n.names a := by
  simp only [names, touchPeer, HashMap.lookup_modify]
  split
  next h => rw [h]; cases n.peers.lookup src <;> rfl
  next => rfl

theorem registerPeer_introduced (clk : Clock) (src : SocketAddr) (name : String) :
    Introduced n (n.registerPeer clk src name) src (some (name, false)) where
  names a := by
    simp only [Node.names, registerPeer, HashMap.lookup_insert']
    split <;> rfl
  lan a := by
    simp only [isLanPath, registerPeer, HashMap.lookup_orInsert]
    by_cases h : a = src
    · subst h
      cases n.paths.lookup a <;> simp
    · simp [h]

theorem discover_introduced (clk : Clock) (src : SocketAddr) (name : String) :
    Introduced n (n.discover clk src name) src
      (if src ∈ n.peers ∨ name = "" then none else some (name, isLanSource src)) := by
  unfold discover
  by_cases hold : src ∈ n.peers ∨ name = ""
  · rw [if_neg (by tauto), if_pos hold]
    exact .of_same (fun _ => rfl) fun _ => rfl
  rw [if_pos (by tauto), if_neg hold]
  obtain ⟨hnames, hlan⟩ := registerPeer_introduced (n := n) clk src name
  by_cases hsource : isLanSource src = true
  · simp only [hsource, if_true]
    refine ⟨hnames, fun a => ?_⟩
    simp only [isLanPath, registerPeer, HashMap.lookup_modify, HashMap.lookup_orInsert]
    by_cases h : a = src
    · simp [h]
    · simp [h]
  · rw [if_neg hsource]
    have hfalse : isLanSource src = false := Bool.eq_false_iff.mpr hsource
    rw [hfalse]
    exact ⟨hnames, hlan⟩

theorem Introduced.congr {m : Node} {src : SocketAddr} {intro : Option (String × Bool)}
    (h : Introduced m n' src intro) (hnames : ∀ a, m.names a = n.names a)
    (hlan : ∀ a, m.isLanPath a = n.isLanPath a) : Introduced n n' src intro where
  names a := by rw [h.names, hnames]
  lan a := by rw [h.lan, hlan]

theorem recordPong_isLanPath (src : SocketAddr) (now : ℕ) :
    (n.recordPong src now).isLanPath a = n.isLanPath a := by
  simp only [isLanPath, recordPong, HashMap.lookup_modify, HashMap.lookup_orInsert]
  by_cases h : a = src
  · subst h
    cases n.paths.lookup a <;> simp
  · simp [h]

/-- What a datagram does to the names and the LAN marks. -/
theorem handle_introduced (n : Node) (cfg : NodeSettings) (w : World) (m : Message)
    (src : SocketAddr) :
    Introduced n (n.handle cfg w m src).1 src (n.introduces m src) := by
  have htouch := fun a => names_touchPeer (n := n) w.clk src a
  have hsame {x : Node} (hpeers : x.peers = (n.touchPeer w.clk src).peers)
      (hpaths : x.paths = n.paths) : Introduced n x src none := by
    refine .of_same (fun a => ?_) fun a => ?_
    · rw [← htouch, names, names, hpeers]
    · rw [isLanPath, isLanPath, hpaths]
  cases m with
  | handshakeRequest claimed name =>
    have h := registerPeer_introduced (n := n.touchPeer w.clk src) (w.after 2).clk src name
    exact ⟨(h.congr htouch fun _ => rfl).names, (h.congr htouch fun _ => rfl).lan⟩
  | ping nonce name =>
    simp only [handle, introduces]
    by_cases hown : nonce = n.beaconNonce ∨ src = n.localAddr
    · rw [if_pos (by exact hown), if_pos (by tauto)]
      exact hsame rfl rfl
    · rw [if_neg (by exact hown)]
      have h := discover_introduced (n := n.touchPeer w.clk src) (w.after 2).clk src name
      simp only [mem_touchPeer] at h
      have hcond : (nonce = n.beaconNonce ∨ src = n.localAddr ∨ src ∈ n.peers ∨ name = "") ↔
          (src ∈ n.peers ∨ name = "") := by tauto
      simp only [hcond]
      exact h.congr htouch fun _ => rfl
  | pong av =>
    have hpong : Introduced n ((n.touchPeer w.clk src).recordPong src ((w.after 2).clk 0)) src
        none := by
      refine .of_same (fun a => htouch a) fun a => ?_
      exact recordPong_isLanPath src _
    cases av with
    | none => exact hpong
    | some av => exact ⟨hpong.names, hpong.lan⟩
  | segmentRequest id filename =>
    have hpeers := originSeedAllowed_peers (n.touchPeer w.clk src) cfg (w.after 2).clk filename src
    have hpaths : ((n.touchPeer w.clk src).originSeedAllowed cfg (w.after 2).clk filename src).1.paths =
        n.paths := by
      rw [originSeedAllowed_eq]
      cases (n.touchPeer w.clk src).admission cfg (w.after 2).clk filename src <;> rfl
    exact hsame hpeers hpaths
  | segmentNotFound id av retryable =>
    simp only [handle]
    split
    · unfold recordMissing
      split <;> cases av <;> exact hsame rfl rfl
    · cases av <;> exact hsame rfl rfl
  | _ => exact hsame rfl rfl

theorem pingCycle_isLanPath (ord : HashOrder) (now : ℕ) :
    (n.pingCycle ord now).1.isLanPath a = n.isLanPath a := by
  have hfold (l : List SocketAddr) (m : HashMap SocketAddr PathState) :
      ((l.foldl (fun m a => m.orInsert a ⟨now, none, false⟩) m).lookup a).any (fun p => p.lan) =
        (m.lookup a).any fun p => p.lan := by
    induction l generalizing m with
    | nil => rfl
    | cons b l ih =>
      rw [List.foldl_cons, ih, HashMap.lookup_orInsert]
      split
      next h => subst h; cases m.lookup a <;> rfl
      next => rfl
  simp only [pingCycle]
  split <;> split
  · exact hfold _ _
  · exact hfold _ _
  · rfl
  · rfl

theorem tick_isLanPath (cfg : NodeSettings) (w : World) (now : ℕ) :
    (n.tick cfg w now).1.isLanPath a = n.isLanPath a := by
  have hserve := foldl_recordServe (·.paths) (fun n clk e => by cases e <;> rfl) { n with
    registry := { (n.registry.tick cfg.transfer w now).1 with events := [] } } w.clk
    (n.registry.tick cfg.transfer w now).1.events
  have hprune := pruneSegments_proj (·.paths) fun _ _ _ => rfl
  have hlan (x y : Node) (h : x.paths = y.paths) : x.isLanPath a = y.isLanPath a := by
    rw [isLanPath, isLanPath, h]
  simp only [tick]
  refine (hlan _ _ (hprune _ _ _ _)).trans ((pingCycle_isLanPath _ _).trans (hlan _ _ hserve))

theorem tick_names (cfg : NodeSettings) (w : World) (now : ℕ) :
    (n.tick cfg w now).1.names a = n.names a := by
  rw [names, names, tick_peers]

/-! Which node an address belongs to: `owner a` sends the datagrams from `a`. -/

section Owner
variable {ι : Type*} (owner : SocketAddr → ι)

/-- No address of a node is replaced by an address of another one, in whatever order the
peers are looked through. -/
def Independent (n : Node) : Prop :=
  ∀ ord, ∀ a ∈ n.peers, ∀ b ∈ n.peers, owner a ≠ owner b → n.effectiveAddr ord a ≠ b

/-- No LAN address bears the name of another node. -/
def Apart (n : Node) : Prop :=
  ∀ a b name, owner a ≠ owner b → n.names a = some name → n.names b = some name →
    n.isLanPath b = false

/-- A registration does not take the name of another known node while one of the two is
reached over the LAN. -/
def KeepsApart (n : Node) (src : SocketAddr) (intro : Option (String × Bool)) : Prop :=
  ∀ name lan, intro = some (name, lan) → ∀ c, owner c ≠ owner src → n.names c = some name →
    n.isLanPath c = false ∧ n.isLanPath src = false ∧ lan = false

variable {owner}

theorem Introduced.apart_iff {src : SocketAddr} {intro : Option (String × Bool)}
    (h : Introduced n n' src intro) (hn : n.Apart owner) :
    n'.Apart owner ↔ n.KeepsApart owner src intro := by
  constructor
  · rintro hn' name lan rfl c hc hname
    have hne : c ≠ src := fun heq => hc (congrArg owner heq)
    have hnamec : n'.names c = some name := by rw [h.names, if_neg hne, hname]
    have hnamesrc : n'.names src = some name := by rw [h.names, if_pos rfl]; rfl
    have hlanc := hn' src c name (Ne.symm hc) hnamesrc hnamec
    have hlansrc := hn' c src name hc hnamec hnamesrc
    rw [h.lan] at hlanc hlansrc
    simp only [Option.any_some, decide_true, Bool.and_true, Bool.or_eq_false_iff] at hlansrc
    exact ⟨(Bool.or_eq_false_iff.mp hlanc).1, hlansrc⟩
  · intro hkeep a b name hab ha hb
    rw [h.names] at ha hb
    rw [h.lan]
    cases hintro : intro with
    | none =>
      simp only [hintro, Option.map_none, Option.none_or, ite_self] at ha hb
      simpa using hn a b name hab ha hb
    | some x =>
      obtain ⟨name', lan⟩ := x
      simp only [hintro, Option.map_some, Option.some_or] at ha hb
      by_cases hasrc : a = src
      · subst hasrc
        have hba : b ≠ a := fun heq => hab (congrArg owner heq.symm)
        rw [if_pos rfl] at ha
        rw [if_neg hba] at hb
        obtain rfl : name' = name := Option.some.inj ha
        have hlan := (hkeep name' lan hintro b (Ne.symm hab) hb).1
        simp [hlan, hba]
      · rw [if_neg hasrc] at ha
        by_cases hbsrc : b = src
        · subst hbsrc
          rw [if_pos rfl] at hb
          obtain rfl : name' = name := Option.some.inj hb
          obtain ⟨-, hlan, hmark⟩ := hkeep name' lan hintro a hab ha
          simp [hlan, hmark]
        · rw [if_neg hbsrc] at hb
          simpa [hbsrc] using hn a b name hab ha hb

/-- Forgetting peers keeps the others apart. -/
theorem Apart.of_subset (hn : n.Apart owner)
    (hnames : ∀ a name, n'.names a = some name → n.names a = some name)
    (hlan : ∀ a, n'.isLanPath a = n.isLanPath a) : n'.Apart owner := by
  intro a b name hab ha hb
  rw [hlan]
  exact hn a b name hab (hnames a name ha) (hnames b name hb)

/-- Addresses are replaced by those of the same node exactly when no LAN address bears the
name of another node. -/
theorem independent_iff : n.Independent owner ↔ n.Apart owner := by
  constructor
  · intro h a b name hab ha hb
    by_contra hlan
    rw [Bool.not_eq_false] at hlan
    obtain ⟨known, hknown, hka⟩ := Option.map_eq_some_iff.mp ha
    obtain ⟨info, hinfo, hib⟩ := Option.map_eq_some_iff.mp hb
    obtain ⟨k, hk, hget⟩ := List.getElem_of_mem (HashMap.mem_pairs.mpr hinfo)
    -- an order that meets `b` first
    let ord : HashOrder := ⟨fun l => l.rotate k, fun l => l.rotate_perm k⟩
    have hhead : (ord.iter n.peers).head? = some (b, info) := by
      have hrot : ord.iter n.peers = n.peers.pairs.rotate k := rfl
      rw [hrot, List.head?_rotate hk, List.getElem?_eq_getElem hk, hget]
    obtain ⟨rest, hiter⟩ := List.head?_eq_some_iff.mp hhead
    have hba : b ≠ a := fun heq => hab (congrArg owner heq.symm)
    refine h ord a (isSome_names.mp (by rw [ha]; rfl)) b (isSome_names.mp (by rw [hb]; rfl)) hab ?_
    have hfirst : decide (info.name = known.name ∧ b ≠ a ∧ n.isLanPath b = true) = true :=
      decide_eq_true ⟨hib.trans hka.symm, hba, hlan⟩
    simp only [effectiveAddr, hknown, hiter, List.find?_cons, hfirst]
  · intro h ord a ha b hb hab heff
    obtain ⟨known, hknown⟩ := HashMap.mem_iff_lookup.mp ha
    simp only [effectiveAddr, hknown] at heff
    split at heff
    next b' info hfind =>
      subst heff
      have hfound := List.find?_some hfind
      simp only [decide_eq_true_eq] at hfound
      obtain ⟨hname, -, hlan⟩ := hfound
      have hinfo := HashOrder.mem_iter.mp (List.mem_of_find?_eq_some hfind)
      have hfree := h a b' known.name hab (by rw [names, hknown]; rfl)
        (by rw [names, hinfo, ← hname]; rfl)
      rw [hfree] at hlan
      cases hlan
    next => exact hab (congrArg owner heff)

variable (owner) in
/-- A candidate for a file stands for a known address of the same node, and every known address
is represented by one of its own node. -/
def KeepsSources (P : PeerConfig) (n : Node) : Prop :=
  ∀ s ord now filename,
    (∀ c ∈ Qstream.candidates P n s ord now filename, ∃ a ∈ n.peers, owner a = owner c) ∧
    ∀ a ∈ n.peers, owner (n.effectiveAddr ord a) = owner a ∧
      (eligible P n s now filename (n.effectiveAddr ord a) = true →
        n.effectiveAddr ord a ∈ Qstream.candidates P n s ord now filename)

theorem Independent.keepsSources (h : n.Independent owner) (P : PeerConfig) :
    n.KeepsSources owner P := by
  intro s ord now filename
  have hsame : ∀ a ∈ n.peers, owner (n.effectiveAddr ord a) = owner a := by
    intro a ha
    by_contra hne
    exact h ord a ha _ (effectiveAddr_mem ha) (Ne.symm hne) rfl
  refine ⟨fun c hc => ?_, fun a ha => ⟨hsame a ha, fun hok => ?_⟩⟩
  · obtain ⟨⟨a, info⟩, ha, rfl⟩ := List.mem_map.mp (List.mem_filter.mp hc).1
    have hknown := HashMap.mem_iff_lookup.mpr ⟨info, HashOrder.mem_iter.mp ha⟩
    exact ⟨a, hknown, (hsame a hknown).symm⟩
  · obtain ⟨info, hinfo⟩ := HashMap.mem_iff_lookup.mp ha
    exact List.mem_filter.mpr
      ⟨List.mem_map.mpr ⟨(a, info), HashOrder.mem_iter.mpr hinfo, rfl⟩, hok⟩

variable (owner) in
/-- No datagram takes the name of another node in a way that matters. -/
def TakesNoName (n : Node) : NodeEvent → Prop
  | .datagram _ m src => n.KeepsApart owner src (n.introduces m src)
  | _ => True

theorem Step.apart_iff {cfg : NodeSettings} {e : NodeEvent} (h : Step cfg n e n')
    (hn : n.Apart owner) : n'.Apart owner ↔ n.TakesNoName owner e := by
  cases h with
  | mk =>
    cases e with
    | datagram w m src => exact (handle_introduced n cfg w m src).apart_iff hn
    | tick w now =>
      refine iff_of_true (hn.of_subset (fun a name h => ?_) fun a => ?_) trivial
      · exact (tick_names cfg w now).symm.trans h
      · exact tick_isLanPath cfg w now
    | files dir => exact iff_of_true (hn.of_subset (fun _ _ h => h) fun _ => rfl) trivial

theorem apart_of_no_peers (h : n.peers = ∅) : n.Apart owner := by
  intro a b name hab ha hb
  rw [names, h] at ha
  cases ha

end Owner
end Node
end Qstream
