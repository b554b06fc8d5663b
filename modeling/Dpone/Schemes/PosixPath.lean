import Dpone.Schemes.Delimited

/-! Pure POSIX paths: a root of no, one or two slashes, and the names between slashes.

    Reading a text drops empty names and single dots, so several texts are one path; LOSSLESS: the
    text a path is written as is read back. -/

namespace Dpone.Schemes

/-- The root of a path. -/
inductive PathRoot where
  | relative
  | slash
  | doubleSlash
  deriving DecidableEq

def PathRoot.text : PathRoot → Str
  | .relative => []
  | .slash => ['/']
  | .doubleSlash => ['/', '/']

/-- A name that a path keeps. -/
def PathName (s : Str) : Prop := s ≠ [] ∧ s ≠ ['.'] ∧ '/' ∉ s

instance (s : Str) : Decidable (PathName s) := inferInstanceAs (Decidable (_ ∧ _ ∧ _))

@[ext] structure PosixPath where
  root : PathRoot
  parts : List Str
  named : ∀ part ∈ parts, PathName part
  deriving DecidableEq

namespace PosixPath

/-- `posixpath.splitroot`. -/
def splitRoot : Str → PathRoot × Str
  | '/' :: '/' :: '/' :: rest => (.slash, '/' :: '/' :: rest)
  | '/' :: '/' :: rest => (.doubleSlash, rest)
  | '/' :: rest => (.slash, rest)
  | s => (.relative, s)

/-- The names between the slashes of a text. -/
def pathNames (s : Str) : List Str := (splitWord ['/'] s).filter fun part => part ≠ [] ∧ part ≠ ['.']

/-- `Path(text)`. -/
def ofText (s : Str) : PosixPath where
  root := (splitRoot s).1
  parts := pathNames (splitRoot s).2
  named part hpart := by
    obtain ⟨hmem, hkept⟩ := List.mem_filter.mp hpart
    have hkept := of_decide_eq_true hkept
    exact ⟨hkept.1, hkept.2, notMem_splitWord hmem⟩

/-- `str(path)`. -/
def text (p : PosixPath) : Str :=
  if p.root = .relative ∧ p.parts = [] then ['.'] else p.root.text ++ ['/'].intercalate p.parts

/-- `path.name`. -/
def name (p : PosixPath) : Str := p.parts.getLastD []

/-- Where the last dot of a name is. -/
def lastDot (s : Str) : Option ℕ :=
  if '.' ∈ s then some (s.length - 1 - s.reverse.idxOf '.') else none

/-- `path.stem`: the name without what follows its last dot, unless that is at either end. -/
def stem (p : PosixPath) : Str :=
  match lastDot p.name with
  | some i => if 0 < i ∧ i < p.name.length - 1 then p.name.take i else p.name
  | none => p.name

/-! ### Round trip -/

theorem splitRoot_text (root : PathRoot) {s : Str} (h : s.head? ≠ some '/') :
    splitRoot (root.text ++ s) = (root, s) := by
  rcases s with _ | ⟨c, s⟩
  · cases root <;> rfl
  · have hc : c ≠ '/' := fun hc => h (by rw [hc]; rfl)
    cases root <;> simp [PathRoot.text, splitRoot, hc]

theorem head_parts {parts : List Str} (h : ∀ part ∈ parts, PathName part) :
    (['/'].intercalate parts).head? ≠ some '/' := by
  rcases parts with _ | ⟨part, parts⟩
  · simp
  · obtain ⟨hne, -, hslash⟩ := h part (List.mem_cons_self ..)
    rcases part with _ | ⟨c, part⟩
    · exact absurd rfl hne
    · have hc : c ≠ '/' := fun hc => hslash (hc ▸ List.mem_cons_self ..)
      rcases parts with _ | ⟨next, parts⟩
      · simpa using hc
      · simpa [List.intercalate_cons_cons] using hc

theorem pathNames_intercalate {parts : List Str} (h : ∀ part ∈ parts, PathName part) :
    pathNames (['/'].intercalate parts) = parts := by
  rcases hparts : parts with _ | ⟨part, rest⟩
  · rfl
  · rw [← hparts, pathNames, splitWord_intercalate (by simp [hparts]) fun p hp => (h p hp).2.2]
    exact List.filter_eq_self.mpr fun p hp => decide_eq_true ⟨(h p hp).1, (h p hp).2.1⟩

/-- LOSSLESS: the text of a path is read back. -/
theorem ofText_text (p : PosixPath) : ofText p.text = p := by
  unfold text
  split_ifs with hempty
  · ext1
    · exact hempty.1.symm
    · exact hempty.2.symm
  · have hsplit := splitRoot_text p.root (head_parts p.named)
    ext1
    · show (splitRoot _).1 = _
      rw [hsplit]
    · show pathNames (splitRoot _).2 = _
      rw [hsplit]
      exact pathNames_intercalate p.named

end PosixPath
end Dpone.Schemes
