import Mathlib.Algebra.Order.BigOperators.Group.List
import Dpone.Schemes.Crash
import Dpone.Schemes.Text
import Dpone.Schemes.Utf

/-! Leaves of one confined directory and the system calls on them.

    A directory gives names to files, a file is an inode number and bytes (a byte stands as the
    character of its number). A schedule says, call by call, what other writers install under the
    target name before the call and whether the call is made, fails or never starts because the
    process is killed. -/

namespace Dpone.Confined
open Dpone.Schemes Dpone.Schemes.Crash

structure LeafFile where
  inode : ℕ
  content : Str
  deriving DecidableEq

abbrev Directory := List (Str × LeafFile)

namespace Directory

def leaf (d : Directory) (name : Str) : Option LeafFile :=
  (d.find? fun entry => entry.1 = name).map Prod.snd

def put (d : Directory) (name : Str) (file : LeafFile) : Directory :=
  (name, file) :: d.filter fun entry => entry.1 ≠ name

def remove (d : Directory) (name : Str) : Directory := d.filter fun entry => entry.1 ≠ name

def swapped (a b name : Str) : Str := if name = a then b else if name = b then a else name

def exchanged (d : Directory) (a b : Str) : Directory :=
  d.map fun entry => (swapped a b entry.1, entry.2)

/-- An inode number that no leaf has: the one wished for when it is free. -/
def freshInode (d : Directory) (wish : ℕ) : ℕ :=
  let used := d.map fun entry => entry.2.inode
  if wish ∈ used then used.sum + 1 else wish

theorem leaf_remove (d : Directory) (name n : Str) :
    (d.remove name).leaf n = if n = name then none else d.leaf n := by
  unfold leaf remove
  rw [List.find?_filter]
  split_ifs with h
  · subst h
    rw [Option.map_eq_none_iff, List.find?_eq_none]
    simp
  · congr 2
    funext entry
    by_cases hn : entry.1 = n <;> simp [hn, h]

theorem leaf_put (d : Directory) (name n : Str) (file : LeafFile) :
    (d.put name file).leaf n = if n = name then some file else d.leaf n := by
  have hrest := leaf_remove d name n
  unfold leaf put at *
  by_cases h : n = name
  · simp [h]
  · rw [if_neg h] at hrest ⊢
    rw [List.find?_cons_of_neg (by simpa using fun hn => h hn.symm)]
    exact hrest

theorem swapped_swapped (a b n : Str) : swapped a b (swapped a b n) = n := by
  unfold swapped
  split_ifs <;> simp_all

theorem leaf_exchanged (d : Directory) (a b n : Str) :
    (d.exchanged a b).leaf n = d.leaf (swapped a b n) := by
  unfold leaf exchanged
  rw [List.find?_map]
  have hnames : (fun entry : Str × LeafFile => decide (entry.1 = n)) ∘
      (fun entry : Str × LeafFile => (swapped a b entry.1, entry.2)) =
      fun entry => decide (entry.1 = swapped a b n) := by
    funext entry
    have : swapped a b entry.1 = n ↔ entry.1 = swapped a b n :=
      ⟨fun h => by rw [← h, swapped_swapped], fun h => by rw [h, swapped_swapped]⟩
    simp [this]
  rw [hnames]
  cases d.find? fun entry => decide (entry.1 = swapped a b n) <;> rfl

theorem freshInode_free {d : Directory} {n : Str} {f : LeafFile} (wish : ℕ)
    (h : d.leaf n = some f) : f.inode ≠ d.freshInode wish := by
  obtain ⟨entry, hentry, rfl⟩ := Option.map_eq_some_iff.mp h
  have hused : entry.2.inode ∈ d.map fun entry => entry.2.inode :=
    List.mem_map_of_mem (List.mem_of_find?_eq_some hentry)
  intro heq
  rw [heq] at hused
  unfold freshInode at hused
  dsimp only at hused
  split_ifs at hused with hwish
  · have := List.le_sum_of_mem hused
    omega
  · exact hwish hused

end Directory

/-- `OSError` and its kinds, with their codes. -/
inductive Fault where
  | os
  | fileNotFound
  | fileExists
  | confinedFile (code : String)
  | journal (code : String)
  | mutation (code : String) (recoveryName : Option Str) (committed cleanupRequired : Bool)
  deriving DecidableEq

/-- What becomes of a system call: made, failed with or without effect, or never reached. -/
inductive Fate where
  | made
  | failed (effect : Bool)
  | killed
  deriving DecidableEq

/-- One entry of a schedule: what other writers install before a call (an inode number they would
    like and the bytes), its fate, and the answers the system is free to give. -/
structure Turn where
  installs : List (ℕ × Str) := []
  fate : Fate := .made
  inode : ℕ := 0
  written : ℕ := 4096
  token : Str := []
  deriving DecidableEq

/-- The directory and the rest of the schedule. Two histories, which no call reads: the files that
    other writers installed and no later writer replaced, and the digests that the journals written
    so far name. -/
structure World where
  leaves : Directory
  turns : List Turn
  owed : List LeafFile := []
  named : List Str := []
  deriving DecidableEq

/-- One target leaf, the limits its operations are called with, and the digest of bytes. -/
structure Site where
  target : Str
  maxBytes : ℕ
  nameMax : ℕ
  sha256 : Str → Str

variable (site : Site)

/-- Another writer renames a complete file onto the target name. -/
def World.install (w : World) (file : ℕ × Str) : World :=
  let installed : LeafFile := ⟨w.leaves.freshInode file.1, file.2⟩
  { w with
    leaves := w.leaves.put site.target installed
    owed := installed :: w.owed.filter fun f => w.leaves.leaf site.target ≠ some f }

/-- The turn of the next call, after the installs before it. -/
def World.next (w : World) : Turn × World :=
  match w.turns with
  | [] => ({}, w)
  | t :: turns => (t, t.installs.foldl (World.install site) { w with turns := turns })

abbrev Call := Prog Fault World

def syscall {α : Type} (effect : Turn → Directory → Except Fault (α × Directory)) : Call α :=
  fun w =>
    let (t, w) := w.next site
    match t.fate, effect t w.leaves with
    | .killed, _ => .killed w
    | .failed true, .ok (_, d) => .raised .os { w with leaves := d }
    | .failed _, _ => .raised .os w
    | .made, .ok (a, d) => .done a { w with leaves := d }
    | .made, .error e => .raised e w

/-! ### System calls -/

/-- `ConfinedFileIdentity`: the fields that are not the same for every regular file of a run. -/
structure FileIdentity where
  inode : ℕ
  size : ℕ
  deriving DecidableEq

def LeafFile.identity (f : LeafFile) : FileIdentity := ⟨f.inode, f.content.length⟩

structure FileSnapshot where
  identity : FileIdentity
  content : Str
  sha256 : Str
  deriving DecidableEq

def LeafFile.snapshot (f : LeafFile) : FileSnapshot := ⟨f.identity, f.content, site.sha256 f.content⟩

def fsync : Call Unit := syscall site fun _ d => .ok ((), d)

/-- `os.stat` of a leaf. -/
def statLeaf (name : Str) : Call FileIdentity := syscall site fun _ d =>
  match d.leaf name with
  | none => .error .fileNotFound
  | some f => .ok (f.identity, d)

def unlink (name : Str) : Call Unit := syscall site fun _ d =>
  match d.leaf name with
  | none => .error .fileNotFound
  | some _ => .ok ((), d.remove name)

/-- `RENAME_EXCHANGE`: both names exist before and after. -/
def atomicExchange (left right : Str) : Call Unit := syscall site fun _ d =>
  if (d.leaf left).isSome ∧ (d.leaf right).isSome then .ok ((), d.exchanged left right)
  else .error .fileNotFound

/-- `os.open` with `O_CREAT | O_EXCL`. -/
def createLeaf (name : Str) : Call Unit := syscall site fun t d =>
  if (d.leaf name).isSome then .error .fileExists
  else .ok ((), d.put name ⟨d.freshInode t.inode, []⟩)

/-- One `os.write` on a leaf that was just created: how many of the bytes it took. -/
def writeLeaf (name payload : Str) : Call ℕ := syscall site fun t d =>
  match d.leaf name with
  | none => .error .os
  | some f => .ok (min t.written payload.length,
      d.put name { f with content := f.content ++ payload.take t.written })

/-- A random name for a recovery leaf: `secrets.token_hex`. -/
def recoveryName : Call Str := fun w =>
  .done (".dpone-recovery-".toList ++ (w.turns.headD {}).token) w

/-! ### Confined reads -/

/-- `read_confined_leaf`: a leaf is open while it is read, so another file under its name does not
    tear what is read. -/
def readConfinedLeaf (name : Str) (maxBytes : ℕ) : Call FileSnapshot :=
  rescue
    (syscall site fun _ d =>
      match d.leaf name with
      | none => .error (.confinedFile "file_not_found")
      | some f =>
        if maxBytes < f.content.length then .error (.confinedFile "file_too_large")
        else .ok (f.snapshot site, d))
    fun
      | .os => raise (.confinedFile "file_unavailable")
      | fault => raise fault

end Dpone.Confined

/-! Exchange of names, and removal of what an exchange left behind. -/

namespace Dpone.Confined
open Dpone.Schemes Dpone.Schemes.Crash

variable (site : Site)

/-- The value, or none where the leaf was not found. -/
def found {α : Type} (call : Call α) : Call (Option α) :=
  rescue (do return some (← call)) fun
    | .fileNotFound => pure none
    | fault => raise fault

def leafExists (name : Str) : Call Bool := do
  return (← found (statLeaf site name)).isSome

/-- `remove_snapshot`: unlink only the file that was read. -/
def removeSnapshot (name : Str) (snapshot : FileSnapshot) : Call Unit := do
  match ← found (statLeaf site name) with
  | none => return ()
  | some current =>
    if current ≠ snapshot.identity then raise .os
    else
      unlink site name
      fsync site

/-- `leaf_matches_snapshot`: a leaf that cannot be read does not match. -/
def leafMatchesSnapshot (name : Str) (expected : FileSnapshot) : Call Bool := do
  let observed ← rescue (do return some (← readConfinedLeaf site name site.maxBytes)) fun
    | .confinedFile _ => pure none
    | fault => raise fault
  return match observed with
  | none => false
  | some observed => observed.sha256 = expected.sha256 ∧ observed.identity = expected.identity

/-- `_create_marker`, with the attempts it has left. -/
def createMarker : ℕ → Call (Str × FileIdentity)
  | 0 => raise .os
  | attempts + 1 => do
    let name ← recoveryName
    let created ← rescue (do createLeaf site name; return true) fun
      | .fileExists => pure false
      | fault => raise fault
    match created with
    | false => createMarker attempts
    | true =>
      fsync site
      let identity ← statLeaf site name
      fsync site
      return (name, identity)

def removeMarkerBestEffort (name : Str) (marker : FileIdentity) : Call Unit :=
  rescue
    (do
      let current ← statLeaf site name
      if current = marker then
        unlink site name
        fsync site)
    fun _ => pure ()

/-- `ExchangeBackOutcome`. -/
structure ExchangeBackOutcome where
  recoveryName : Option Str := none
  cleanupRequired : Bool := false
  deriving DecidableEq

/-- `_preserve_unknown`: the leaf moves to a reserved recovery name. -/
def preserveUnknown (name : Str) : Call ExchangeBackOutcome := do
  let (recovery, marker) ← createMarker site 16
  rescue
    (do
      atomicExchange site name recovery
      fsync site)
    fun fault => do
      removeMarkerBestEffort site recovery marker
      raise fault
  rescue
    (do
      let snapshot ← readConfinedLeaf site name 0
      if snapshot.identity ≠ marker then raise .os
      else
        removeSnapshot site name snapshot
        return { recoveryName := some recovery })
    fun _ => pure { recoveryName := some recovery, cleanupRequired := true }

/-- `exchange_back`: restore the displaced source and set any third file aside. -/
def exchangeBack (exchangeName : Str) (displacedSource : FileSnapshot) (desiredSha256 : Str)
    (desiredIdentity : FileIdentity) : Call ExchangeBackOutcome := do
  atomicExchange site site.target exchangeName
  fsync site
  let restored ← readConfinedLeaf site site.target site.maxBytes
  if ¬(restored.sha256 = displacedSource.sha256 ∧
      restored.identity = displacedSource.identity) then raise .os
  else
    let candidate ← rescue (do return some (← readConfinedLeaf site exchangeName site.maxBytes)) fun
      | .confinedFile _ => pure none
      | fault => raise fault
    match candidate with
    | none => preserveUnknown site exchangeName
    | some candidate =>
      if candidate.sha256 = desiredSha256 ∧ candidate.identity = desiredIdentity then
        removeSnapshot site exchangeName candidate
        return {}
      else preserveUnknown site exchangeName

end Dpone.Confined
