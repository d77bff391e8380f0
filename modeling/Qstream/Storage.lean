import Qstream.HashMap
import Qstream.Text

/-! Absolute Unix paths without links, as the list of their components, and what a string
names when it is joined to one. -/
namespace UnixPath

abbrev Path := List String

/-- Follow one component: empty ones and `.` stay, `..` climbs, and stays at the top. -/
def follow (p : Path) (component : List Char) : Path :=
  if component = [] ∨ component = ['.'] then p
  else if component = ['.', '.'] then p.dropLast
  else p ++ [String.ofList component]

/-- Where the components of an argument lead, one after the other. An absolute argument
replaces the base. -/
def trail (base : Path) (arg : String) : List Path :=
  (arg.toList.splitOn '/').scanl follow (if ['/'] <+: arg.toList then [] else base)

/-- The paths that a component is looked up in. -/
def passed (base : Path) (arg : String) : List Path := (trail base arg).dropLast

def join (base : Path) (arg : String) : Path :=
  (arg.toList.splitOn '/').foldl follow (if ['/'] <+: arg.toList then [] else base)

/-- The direct children of the base that an argument leads to or through. -/
def visited (base : Path) (arg : String) : List String :=
  (trail base arg).filterMap fun p => if p.dropLast = base then p.getLast? else none

theorem trail_eq (base : Path) (arg : String) : trail base arg = passed base arg ++ [join base arg] := by
  have hlast : (trail base arg).getLast? = some (join base arg) := List.getLast?_scanl
  exact (List.dropLast_append_getLast? _ hlast).symm

theorem exists_child {p base : Path} (hne : p ≠ []) (h : p.dropLast = base) :
    ∃ last, p = base ++ [last] :=
  ⟨p.getLast hne, by rw [← h, List.dropLast_append_getLast]⟩

theorem mem_visited {base : Path} {arg child : String} :
    child ∈ visited base arg ↔ base ++ [child] ∈ trail base arg := by
  unfold visited
  rw [List.mem_filterMap]
  constructor
  · rintro ⟨p, hp, hlast⟩
    split at hlast
    next hdrop =>
      have hne : p ≠ [] := by
        rintro rfl
        cases hlast
      obtain ⟨last, rfl⟩ := exists_child hne hdrop
      rw [List.getLast?_concat] at hlast
      cases hlast
      exact hp
    next => cases hlast
  · exact fun h => ⟨_, h, by rw [if_pos List.dropLast_concat, List.getLast?_concat]⟩

/-- A single normal component is looked up in the base, and names its direct child. -/
theorem trail_component {name : String} (hne : name ≠ "") (hdot : name ≠ ".") (hup : name ≠ "..")
    (hslash : '/' ∉ name.toList) (base : Path) : trail base name = [base, base ++ [name]] := by
  have hlist {l : List Char} {s : String} (h : name ≠ s) (hs : s.toList = l) : name.toList ≠ l :=
    fun heq => h (String.toList_inj.mp (heq.trans hs.symm))
  have hempty : name.toList ≠ [] := hlist hne rfl
  have hone : name.toList ≠ ['.'] := hlist hdot rfl
  have htwo : name.toList ≠ ['.', '.'] := hlist hup rfl
  have hfollow : follow base name.toList = base ++ [name] := by
    unfold follow
    rw [if_neg (not_or.mpr ⟨hempty, hone⟩), if_neg htwo, String.ofList_toList]
  have habsolute : ¬ ['/'] <+: name.toList := fun h =>
    hslash (h.subset List.mem_cons_self)
  rw [trail, List.splitOn_eq_singleton hslash, if_neg habsolute, List.scanl_singleton, hfollow]

example : trail ["srv", "live"] "../key" = [["srv", "live"], ["srv"], ["srv", "key"]] := by
  decide +kernel

example : join ["srv", "live"] "/etc//./passwd" = ["etc", "passwd"] := by decide +kernel

end UnixPath

/-! The directory a node keeps its segments in, inside its file system, and the names of the
files: those in a manifest, those that are accepted, and those of numbered segments. -/
namespace Qstream
open Text UnixPath

inductive FileEntry
  | file (data : Bytes) (readable : Bool) (modified : ℕ)
  | directory
  deriving DecidableEq, Repr

abbrev FileSystem := Path → Option FileEntry

/-- What an argument joined to `base` names. Each component has to be looked up in a directory,
and no path holds a NUL. -/
def FileSystem.resolve (fs : FileSystem) (base : Path) (arg : String) : Option FileEntry :=
  if '\x00' ∉ arg.toList ∧ ∀ p ∈ passed base arg, fs p = some .directory then fs (join base arg)
  else none

/-- The segment root: its direct children, its path, and what else the file system holds. -/
structure Dir where
  entries : HashMap String FileEntry
  root : Path
  outside : FileSystem

/-- A single normal path component. -/
def plainName (name : String) : Bool :=
  name ≠ "" ∧ name ≠ "." ∧ name ≠ ".." ∧ '/' ∉ name.toList ∧ '\x00' ∉ name.toList

/-- Segment filenames of an m3u8 playlist; none at all when it is not UTF-8. -/
def parseManifest (data : Bytes) : List String :=
  match fromUtf8 data with
  | some s => ((lines s).filter fun l => l ≠ [] ∧ ¬ startsWith ['#'] l).map fun l =>
      String.ofList (trim l)
  | none => []

/-- Reject path traversal and weird names. -/
def validFilename (name : String) : Bool :=
  name ≠ "" ∧ name.utf8ByteSize ≤ 255 ∧ '/' ∉ name.toList ∧ '\\' ∉ name.toList ∧
    ¬ startsWith ['.'] name.toList ∧ name.toList.all isAsciiGraphic

def segmentNumber (name : String) : Option ℕ := do
  let rest ← stripPrefix "seg_".toList name.toList
  let digits ← stripSuffix ".ts".toList rest
  parseU64 digits

def segmentCount (data : Bytes) : ℕ := (parseManifest data).length

example : parseManifest "#EXTM3U\n#EXTINF:2.0,\nseg_0100.ts \n".toUTF8.toList = ["seg_0100.ts"] := by
  decide +kernel

def tmpName (name : String) : String := name ++ ".tmp"

/-- How a write to a temporary file followed by a rename ends. -/
inductive SaveIo
  | ok
  | writeError (error : String) (leftover : Option Bytes)
  | renameError (error : String)
  deriving DecidableEq, Repr

/-- What the world decides during one call: the clock readings, the iteration order of
the hash maps, how the file operations end, and the file time. -/
structure World where
  clk : Clock
  ord : HashOrder
  io : SaveIo
  wall : ℕ

/-- The rest of a call after its first `k` clock readings. -/
def World.after (w : World) (k : ℕ) : World := { w with clk := fun i => w.clk (i + k) }

/-- What a name leads to depends on what its path visits. -/
theorem resolve_congr {fs fs' : FileSystem} {base : Path} {arg : String}
    (h : ∀ p ∈ trail base arg, fs' p = fs p) : fs'.resolve base arg = fs.resolve base arg := by
  rw [trail_eq] at h
  have hpassed : (∀ p ∈ passed base arg, fs' p = some .directory) ↔
      ∀ p ∈ passed base arg, fs p = some .directory :=
    forall₂_congr fun p hp => by rw [h p (List.mem_append_left _ hp)]
  simp only [FileSystem.resolve, hpassed, h _ (List.mem_append_right _ (List.mem_singleton_self _))]

section Plain
variable {name : String} (h : plainName name = true)
include h

theorem trail_plainName (base : Path) : trail base name = [base, base ++ [name]] := by
  simp only [plainName, decide_eq_true_eq] at h
  exact trail_component h.1 h.2.1 h.2.2.1 h.2.2.2.1 base

theorem resolve_plainName (fs : FileSystem) {base : Path} (hbase : fs base = some .directory) :
    fs.resolve base name = fs (base ++ [name]) := by
  have htrail := trail_plainName h base
  have hpassed : passed base name = [base] := by rw [passed, htrail]; rfl
  have hjoin : join base name = base ++ [name] := by
    rw [trail_eq, hpassed] at htrail
    exact List.cons.inj (List.cons.inj htrail).2 |>.1
  simp only [plainName, decide_eq_true_eq] at h
  rw [FileSystem.resolve, if_pos ⟨h.2.2.2.2, by simpa [hpassed] using hbase⟩, hjoin]

theorem mem_visited_plainName (base : Path) {child : String} :
    child ∈ visited base name ↔ child = name := by
  simp [mem_visited, trail_plainName h]

end Plain

theorem not_visited {name child : String} (h : plainName name = true) (hne : name ≠ child)
    (base : Path) : child ∉ visited base name := fun hmem =>
  hne ((mem_visited_plainName h base).mp hmem).symm

/-- An accepted file name is a single normal component. -/
theorem plainName_of_validFilename {name : String} (h : validFilename name = true) :
    plainName name = true := by
  simp only [validFilename, decide_eq_true_eq] at h
  obtain ⟨hne, -, hslash, -, hdot, hgraphic⟩ := h
  simp only [plainName, decide_eq_true_eq]
  refine ⟨hne, ?_, ?_, hslash, fun hnul => ?_⟩
  · rintro rfl
    exact hdot (by decide)
  · rintro rfl
    exact hdot (by decide)
  · exact absurd (List.all_eq_true.mp hgraphic _ hnul) (by decide)

namespace Dir

/-- The file system around the root. The root and the directories above it are directories. -/
def stat (d : Dir) : FileSystem := fun p =>
  if p <+: d.root then some .directory
  else if p.dropLast = d.root then p.getLast?.bind fun name => d.entries.lookup name
  else d.outside p

/-- What `root.join(name)` names. -/
def lookup (d : Dir) (name : String) : Option FileEntry := d.stat.resolve d.root name

def read (d : Dir) (name : String) : Option Bytes :=
  match d.lookup name with
  | some (.file data true _) => some data
  | _ => none

def isFile (d : Dir) (name : String) : Bool :=
  match d.lookup name with
  | some (.file ..) => true
  | _ => false

def exists' (d : Dir) (name : String) : Bool := (d.lookup name).isSome

def names (d : Dir) : List String := d.entries.keys

def write (d : Dir) (name : String) (data : Bytes) (wall : ℕ) : Dir :=
  { d with entries := d.entries.insert name (.file data true wall) }

/-- Remove a file; a directory of that name stays. -/
def removeFile (d : Dir) (name : String) : Dir :=
  if d.isFile name then { d with entries := d.entries.erase name } else d

def rename (d : Dir) (old new : String) : Dir :=
  match d.entries.lookup old with
  | some e => { d with entries := (d.entries.erase old).insert new e }
  | none => d

/-- Write `data` to `name.tmp` and rename it to `name`. -/
def saveAtomic (d : Dir) (io : SaveIo) (wall : ℕ) (name : String) (data : Bytes) :
    Dir × Option String :=
  match io with
  | .ok => ((d.write (tmpName name) data wall).rename (tmpName name) name, none)
  | .writeError e none => (d, some e)
  | .writeError e (some left) => (d.write (tmpName name) left wall, some e)
  | .renameError e => (d.write (tmpName name) data wall, some e)

theorem entries_saveAtomic_ok (d : Dir) (wall : ℕ) (name : String) (data : Bytes) (x : String) :
    (d.saveAtomic .ok wall name data).1.entries.lookup x =
      if x = name then some (.file data true wall)
      else if x = tmpName name then none else d.entries.lookup x := by
  simp only [saveAtomic, rename, write, AList.lookup_insert, HashMap.lookup_insert',
    HashMap.lookup_erase']
  split
  · rfl
  split <;> simp_all

theorem entries_saveAtomic_failed {d : Dir} {io : SaveIo} (hio : io ≠ .ok) (wall : ℕ)
    (name : String) (data : Bytes) {x : String} (hx : x ≠ tmpName name) :
    (d.saveAtomic io wall name data).1.entries.lookup x = d.entries.lookup x := by
  cases io with
  | ok => exact absurd rfl hio
  | writeError e left =>
    cases left with
    | none => rfl
    | some b => simp [saveAtomic, write, hx]
  | renameError e => simp [saveAtomic, write, hx]

theorem stat_root (d : Dir) : d.stat d.root = some .directory := if_pos (List.prefix_refl _)

theorem stat_child (d : Dir) (name : String) : d.stat (d.root ++ [name]) = d.entries.lookup name := by
  have hbelow : ¬ d.root ++ [name] <+: d.root := fun h => by simpa using h.length_le
  rw [stat, if_neg hbelow, if_pos List.dropLast_concat, List.getLast?_concat, Option.bind_some]

/-- A plain name is that of a direct child. -/
theorem lookup_plainName {name : String} (h : plainName name = true) (d : Dir) :
    d.lookup name = d.entries.lookup name := by
  rw [lookup, resolve_plainName h d.stat d.stat_root, stat_child]

/-- Changes to the direct children do not matter to a name that does not visit them. -/
theorem lookup_withEntries (d : Dir) {m : HashMap String FileEntry} {name : String}
    (h : ∀ child ∈ visited d.root name, m.lookup child = d.entries.lookup child) :
    ({ d with entries := m } : Dir).lookup name = d.lookup name := by
  refine resolve_congr fun p hp => ?_
  by_cases hchild : p.dropLast = d.root ∧ p ≠ []
  · obtain ⟨hdrop, hne⟩ := hchild
    obtain ⟨last, rfl⟩ := exists_child hne hdrop
    exact (stat_child { d with entries := m } _).trans ((h _ (mem_visited.mpr hp)).trans (d.stat_child _).symm)
  · simp only [stat]
    by_cases habove : p <+: d.root
    · rw [if_pos habove, if_pos habove]
    · have hne : p ≠ [] := fun hnil => habove (hnil ▸ List.nil_prefix)
      have hnot : p.dropLast ≠ d.root := fun hdrop => hchild ⟨hdrop, hne⟩
      rw [if_neg habove, if_neg habove, if_neg hnot, if_neg hnot]

/-- Names lead to no more than they did when there are fewer children. -/
theorem lookup_of_fewer {d : Dir} {m : HashMap String FileEntry}
    (hm : ∀ child e, m.lookup child = some e → d.entries.lookup child = some e) {name : String}
    {e : FileEntry} (h : ({ d with entries := m } : Dir).lookup name = some e) :
    d.lookup name = some e := by
  have hstat : ∀ p e, ({ d with entries := m } : Dir).stat p = some e → d.stat p = some e := by
    intro p e hp
    unfold stat at hp ⊢
    split
    next habove => rwa [if_pos habove] at hp
    next hbelow =>
      rw [if_neg hbelow] at hp
      split
      next hchild =>
        rw [if_pos hchild] at hp
        obtain ⟨last, hlast, he⟩ := Option.bind_eq_some_iff.mp hp
        exact Option.bind_eq_some_iff.mpr ⟨last, hlast, hm last e he⟩
      next hnot => rwa [if_neg hnot] at hp
  unfold lookup FileSystem.resolve at h ⊢
  split at h
  next hreach =>
    rw [if_pos ⟨hreach.1, fun p hp => hstat p _ (hreach.2 p hp)⟩]
    exact hstat _ _ h
  next => cases h

theorem saveAtomic_eq (d : Dir) (io : SaveIo) (wall : ℕ) (name : String) (data : Bytes) :
    (d.saveAtomic io wall name data).1 =
      { d with entries := (d.saveAtomic io wall name data).1.entries } := by
  cases io with
  | ok =>
    simp only [saveAtomic, rename]
    split <;> rfl
  | writeError e left => cases left <;> rfl
  | renameError e => rfl

@[simp] theorem root_saveAtomic (d : Dir) (io : SaveIo) (wall : ℕ) (name : String) (data : Bytes) :
    (d.saveAtomic io wall name data).1.root = d.root := by rw [saveAtomic_eq]

@[simp] theorem root_removeFile (d : Dir) (name : String) : (d.removeFile name).root = d.root := by
  unfold removeFile
  split <;> rfl

/-- Saving a file leaves all names alone that visit neither it nor its temporary file. -/
theorem lookup_saveAtomic (d : Dir) (io : SaveIo) (wall : ℕ) (name : String) (data : Bytes)
    {x : String} (hx : name ∉ visited d.root x) (ht : tmpName name ∉ visited d.root x) :
    (d.saveAtomic io wall name data).1.lookup x = d.lookup x := by
  rw [saveAtomic_eq]
  refine d.lookup_withEntries fun child hchild => ?_
  have hne : child ≠ name := fun h => hx (h ▸ hchild)
  have htne : child ≠ tmpName name := fun h => ht (h ▸ hchild)
  by_cases hio : io = .ok
  · rw [hio, entries_saveAtomic_ok, if_neg hne, if_neg htne]
  · exact entries_saveAtomic_failed hio wall name data htne

theorem lookup_removeFile (d : Dir) {name x : String} (hx : name ∉ visited d.root x) :
    (d.removeFile name).lookup x = d.lookup x := by
  unfold removeFile
  split
  · refine d.lookup_withEntries fun child hchild => ?_
    have hne : child ≠ name := fun h => hx (h ▸ hchild)
    rw [HashMap.lookup_erase', if_neg hne]
  · rfl

theorem lookup_saveAtomic_ok (d : Dir) (wall : ℕ) {name : String} (hname : plainName name = true)
    (data : Bytes) :
    (d.saveAtomic .ok wall name data).1.lookup name = some (.file data true wall) := by
  rw [lookup_plainName hname, entries_saveAtomic_ok, if_pos rfl]

theorem lookup_removed {d : Dir} {name : String} (hname : plainName name = true)
    (hfile : d.lookup name ≠ some .directory) : (d.removeFile name).lookup name = none := by
  cases hlookup : d.lookup name with
  | none =>
    have hno : ¬ d.isFile name = true := by simp [isFile, hlookup]
    rw [removeFile, if_neg hno, hlookup]
  | some e =>
    cases e with
    | directory => exact absurd hlookup hfile
    | file data readable modified =>
      have hyes : d.isFile name = true := by simp [isFile, hlookup]
      rw [removeFile, if_pos hyes]
      simp [lookup_plainName hname]

theorem saveAtomic_error {d : Dir} {io : SaveIo} {wall : ℕ} {name : String} {data : Bytes} :
    (d.saveAtomic io wall name data).2 = none ↔ io = .ok := by
  cases io with
  | ok => simp [saveAtomic]
  | writeError e left => cases left <;> simp [saveAtomic]
  | renameError e => simp [saveAtomic]

end Dir

/-- The directory as the code sees it is the directory `root` of `fs`. -/
structure Dir.Views (dir : Dir) (fs : FileSystem) (root : Path) : Prop where
  lookup : ∀ name, dir.lookup name = fs.resolve root name

/-- `data` is what a direct child of the root holds. -/
def ChildHolds (fs : FileSystem) (root : Path) (data : Bytes) : Prop :=
  ∃ name modified, plainName name = true ∧ fs (root ++ [name]) = some (.file data true modified)

section Views
variable {dir : Dir} {fs : FileSystem} {root : Path}

theorem Dir.Views.root_directory (h : dir.Views fs root) : fs root = some .directory := by
  have hempty := h.lookup ""
  have htrail (base : Path) : passed base "" = [base] ∧ join base "" = base := ⟨rfl, rfl⟩
  simp only [Dir.lookup, FileSystem.resolve, htrail, List.forall_mem_singleton, Dir.stat_root] at hempty
  by_contra hnot
  simp [hnot] at hempty

theorem Dir.Views.child_of_read (h : dir.Views fs root) {name : String} {data : Bytes}
    (hvalid : validFilename name = true) (hread : dir.read name = some data) :
    ChildHolds fs root data := by
  have hplain := plainName_of_validFilename hvalid
  unfold Dir.read at hread
  split at hread
  next bytes modified heq =>
    cases hread
    rw [h.lookup, resolve_plainName hplain fs h.root_directory] at heq
    exact ⟨name, modified, hplain, heq⟩
  next => cases hread

end Views

end Qstream
