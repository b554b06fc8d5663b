import Mathlib.Data.List.Perm.Basic
import Dpone.Schemes.Saga

/-! A bounded pool of workers over a list of tasks.

    The pool keeps at most a given number of tasks running, takes the finished ones in whatever
    order they finish, and starts as many of the waiting ones. The first failure abandons the rest:
    tasks that had started run to their own end, the others never run. Tasks work on parts of the
    world that do not overlap, so each runs in one piece. If the pool returns, it has one result for
    each task, in the order of the tasks. -/

namespace Dpone.Schemes
open Program

variable {σ ε T R : Type}

/-- What the scheduler decides: which running tasks a wait finds finished, and which ones had
    started by the time the pool is shut down. -/
structure Schedule where
  finishes : ℕ → ℕ → Bool
  starts : ℕ → Bool

/-- `wait(pending, return_when=FIRST_COMPLETED)`: the finished tasks, at least one, and the rest. -/
def waitFirst (finished : ℕ → Bool) (pending : List (ℕ × T)) : List (ℕ × T) × List (ℕ × T) :=
  if pending.any fun p => finished p.1 then pending.partition fun p => finished p.1
  else (pending.take 1, pending.drop 1)

variable (schedule : Schedule) (work : T → Program σ ε R)

/-- The tasks left behind by a failure: those that had started run to their own end. -/
def abandon (started : ℕ → Bool) : List (ℕ × T) → σ → σ
  | [], s => s
  | (i, t) :: rest, s => abandon started rest (if started i then (work t s).2 else s)

/-- The world after a failure among finished tasks, `more` being the others that finished. -/
def shutdown (more rest : List (ℕ × T)) (s : σ) : σ :=
  abandon work schedule.starts rest (abandon work (fun _ => true) more s)

/-- The results of finished tasks, `rest` being the tasks still running. -/
def collect (rest : List (ℕ × T)) : List (ℕ × T) → Program σ ε (List (ℕ × R))
  | [], s => (.returned [], s)
  | (i, t) :: more, s =>
    match work t s with
    | (.raised e, s) => (.raised e, shutdown schedule work more rest s)
    | (.stopped, s) => (.stopped, shutdown schedule work more rest s)
    | (.returned r, s) =>
      match collect rest more s with
      | (.returned rs, s) => (.returned ((i, r) :: rs), s)
      | (.raised e, s) => (.raised e, s)
      | (.stopped, s) => (.stopped, s)

theorem waitFirst_perm (finished : ℕ → Bool) (pending : List (ℕ × T)) :
    ((waitFirst finished pending).1 ++ (waitFirst finished pending).2).Perm pending := by
  unfold waitFirst
  split
  · rw [List.partition_eq_filter_filter]
    exact List.filter_append_perm _ _
  · rw [List.take_append_drop]

theorem waitFirst_pos (finished : ℕ → Bool) {pending : List (ℕ × T)} (h : pending ≠ []) :
    0 < (waitFirst finished pending).1.length := by
  unfold waitFirst
  split
  · next hany =>
    rw [List.partition_eq_filter_filter]
    obtain ⟨p, hp, hdone⟩ := List.any_eq_true.mp hany
    exact List.length_pos_of_mem (List.mem_filter.mpr ⟨hp, hdone⟩)
  · cases pending with
    | nil => exact absurd rfl h
    | cons p ps => simp

theorem waitFirst_length (finished : ℕ → Bool) (pending : List (ℕ × T)) :
    (waitFirst finished pending).1.length + (waitFirst finished pending).2.length =
      pending.length := by
  rw [← List.length_append]
  exact (waitFirst_perm finished pending).length_eq

/-- The loop over `pending`: collect what is finished, then start as many waiting tasks. -/
def poolLoop (turn : ℕ) (waiting pending : List (ℕ × T)) (results : List (ℕ × R)) :
    Program σ ε (List (ℕ × R)) :=
  if _ : pending = [] then pure results
  else do
    let finished := waitFirst (schedule.finishes turn) pending
    let rs ← collect schedule work finished.2 finished.1
    poolLoop (turn + 1) (waiting.drop finished.1.length)
      (finished.2 ++ waiting.take finished.1.length) (results ++ rs)
termination_by waiting.length + pending.length
decreasing_by
  have hpos := waitFirst_pos (schedule.finishes turn) ‹¬ pending = []›
  have hlen := waitFirst_length (schedule.finishes turn) pending
  simp only [List.length_drop, List.length_append, List.length_take]
  omega

/-- `tuple(results[index] for index in range(len(results)))`. -/
def inOrder (missing : ε) (results : List (ℕ × R)) : Program σ ε (List R) :=
  match (List.range results.length).mapM fun i => results.lookup i with
  | some rs => pure rs
  | none => raise missing

/-- Results of all tasks, or the first failure. -/
def runPool (missing : ε) (workers : ℕ) (tasks : List T) : Program σ ε (List R) := do
  let numbered := tasks.zipIdx.map fun p => (p.2, p.1)
  let results ← poolLoop schedule work 0 (numbered.drop workers) (numbered.take workers) []
  inOrder missing results

/-! ### Results in order -/

variable {schedule : Schedule} {work : T → Program σ ε R} {P : σ → Prop} {Post : T → R → Prop}

theorem abandon_keeps (hwork : ∀ t, Triple P (work t) (fun r s => P s ∧ Post t r) P)
    (started : ℕ → Bool) : ∀ (rest : List (ℕ × T)) (s : σ), P s → P (abandon work started rest s)
  | [], _, hs => hs
  | (i, t) :: rest, s, hs => by
      refine abandon_keeps hwork started rest _ ?_
      split_ifs
      · have h := hwork t s hs
        rcases hw : work t s with ⟨_ | _ | _, s'⟩ <;> rw [hw] at h
        · exact h.1
        · exact h
        · exact h
      · exact hs

theorem shutdown_keeps (hwork : ∀ t, Triple P (work t) (fun r s => P s ∧ Post t r) P)
    (more rest : List (ℕ × T)) {s : σ} (hs : P s) : P (shutdown schedule work more rest s) :=
  abandon_keeps hwork _ rest _ (abandon_keeps hwork _ more s hs)

/-- STEP: collecting runs every finished task, and each result is of its task. -/
theorem collect_spec (hwork : ∀ t, Triple P (work t) (fun r s => P s ∧ Post t r) P)
    (rest : List (ℕ × T)) : ∀ finished : List (ℕ × T),
      Triple P (collect schedule work rest finished)
        (fun rs s => P s ∧ rs.map (·.1) = finished.map (·.1) ∧
          ∀ p ∈ rs, ∃ t, (p.1, t) ∈ finished ∧ Post t p.2) P
  | [] => fun s hs => ⟨hs, rfl, fun _ hp => nomatch hp⟩
  | (i, t) :: more => by
      intro s hs
      have h := hwork t s hs
      unfold collect
      rcases hw : work t s with ⟨r | e | _, s'⟩ <;> rw [hw] at h
      · have hmore := collect_spec hwork rest more s' h.1
        dsimp only
        rcases hc : collect schedule work rest more s' with ⟨rs | e | _, s''⟩ <;> rw [hc] at hmore
        · obtain ⟨hs'', hids, hposts⟩ := hmore
          refine ⟨hs'', by simp [hids], ?_⟩
          rintro p (_ | ⟨_, hp⟩)
          · exact ⟨t, List.mem_cons_self, h.2⟩
          · obtain ⟨t', ht', hpost⟩ := hposts p hp
            exact ⟨t', List.mem_cons_of_mem _ ht', hpost⟩
        · exact hmore
        · exact hmore
      · exact shutdown_keeps hwork _ _ h
      · exact shutdown_keeps hwork _ _ h

/-- Every task is waiting, running or has its result, and none waits for an empty pool. -/
structure Accounted (tasks : List T) (Post : T → R → Prop) (waiting pending : List (ℕ × T))
    (results : List (ℕ × R)) : Prop where
  numbers : (results.map (·.1) ++ (pending ++ waiting).map (·.1)).Perm (List.range tasks.length)
  unfinished : ∀ p ∈ pending ++ waiting, tasks[p.1]? = some p.2
  finished : ∀ p ∈ results, ∃ t, tasks[p.1]? = some t ∧ Post t p.2
  busy : pending = [] → waiting = []

theorem Accounted.next {tasks : List T} {waiting pending done rest : List (ℕ × T)}
    {results rs : List (ℕ × R)} (h : Accounted tasks Post waiting pending results)
    (hperm : (done ++ rest).Perm pending) (hpos : 0 < done.length)
    (hids : rs.map (·.1) = done.map (·.1))
    (hposts : ∀ p ∈ rs, ∃ t, (p.1, t) ∈ done ∧ Post t p.2) :
    Accounted tasks Post (waiting.drop done.length)
      (rest ++ waiting.take done.length) (results ++ rs) := by
  have hsplit : rest ++ waiting.take done.length ++ waiting.drop done.length =
      rest ++ waiting := by
    rw [List.append_assoc, List.take_append_drop]
  refine ⟨?_, ?_, ?_, ?_⟩
  · refine List.Perm.trans ?_ h.numbers
    rw [hsplit, List.map_append, hids, List.append_assoc, ← List.map_append, ← List.append_assoc]
    exact ((hperm.append_right waiting).map _).append_left _
  · intro p hp
    rw [hsplit] at hp
    refine h.unfinished p ?_
    rcases List.mem_append.mp hp with hp | hp
    · exact List.mem_append_left _ (hperm.subset (List.mem_append_right _ hp))
    · exact List.mem_append_right _ hp
  · intro p hp
    rcases List.mem_append.mp hp with hp | hp
    · exact h.finished p hp
    · obtain ⟨t, ht, hpost⟩ := hposts p hp
      exact ⟨t, h.unfinished (p.1, t) (List.mem_append_left _ (hperm.subset
        (List.mem_append_left _ ht))), hpost⟩
  · intro hempty
    obtain ⟨-, htake⟩ := List.append_eq_nil_iff.mp hempty
    rcases List.take_eq_nil_iff.mp htake with hzero | hnil
    · omega
    · rw [hnil, List.drop_nil]

/-- RUN: the loop ends with a result for every task. -/
theorem poolLoop_spec (hwork : ∀ t, Triple P (work t) (fun r s => P s ∧ Post t r) P)
    {tasks : List T} (turn : ℕ) (waiting pending : List (ℕ × T)) (results : List (ℕ × R))
    (haccount : Accounted tasks Post waiting pending results) :
    Triple P (poolLoop schedule work turn waiting pending results)
      (fun rs s => P s ∧ Accounted tasks Post [] [] rs) P := by
  rw [poolLoop]
  split_ifs with hempty
  · refine Triple.pure fun s hs => ⟨hs, ?_⟩
    obtain rfl := haccount.busy hempty
    exact hempty ▸ haccount
  · have hpos := waitFirst_pos (schedule.finishes turn) hempty
    have hlen := waitFirst_length (schedule.finishes turn) pending
    refine Triple.bind (collect_spec hwork _ _) fun rs => ?_
    intro s hs
    obtain ⟨hs, hids, hposts⟩ := hs
    exact poolLoop_spec hwork _ _ _ _ (haccount.next (waitFirst_perm _ _) hpos hids hposts) s hs
termination_by waiting.length + pending.length
decreasing_by
  simp only [List.length_drop, List.length_append, List.length_take]
  omega

theorem Accounted.start (tasks : List T) {workers : ℕ} (hworkers : 0 < workers) :
    Accounted tasks Post ((tasks.zipIdx.map fun p => (p.2, p.1)).drop workers)
      ((tasks.zipIdx.map fun p => (p.2, p.1)).take workers) ([] : List (ℕ × R)) := by
  refine ⟨?_, ?_, (fun _ hp => nomatch hp), ?_⟩
  · rw [List.take_append_drop, List.map_map]
    have hnumbers : tasks.zipIdx.map ((·.1) ∘ fun p => (p.2, p.1)) = List.range tasks.length := by
      rw [List.range_eq_range', ← List.zipIdx_map_snd 0 tasks]
      rfl
    rw [hnumbers]
    exact List.Perm.refl _
  · intro p hp
    rw [List.take_append_drop] at hp
    obtain ⟨q, hq, rfl⟩ := List.mem_map.mp hp
    exact List.mem_zipIdx_iff_getElem?.mp hq
  · intro hempty
    rcases List.take_eq_nil_iff.mp hempty with hzero | hnil
    · omega
    · rw [hnil, List.drop_nil]

/-- What a lookup finds has the number it was looked up under. -/
theorem lookup_mem : ∀ {results : List (ℕ × R)} {i : ℕ} {r : R},
    results.lookup i = some r → (i, r) ∈ results
  | (j, r') :: results, i, r, h => by
      rw [List.lookup_cons] at h
      split at h
      · next heq =>
        obtain rfl := Option.some.inj h
        rw [beq_iff_eq.mp heq]
        exact List.mem_cons_self
      · exact List.mem_cons_of_mem _ (lookup_mem h)

theorem lookup_found : ∀ {results : List (ℕ × R)} {i : ℕ}, i ∈ results.map (·.1) →
    ∃ r, results.lookup i = some r
  | (j, r') :: results, i, h => by
      rw [List.lookup_cons]
      split
      · exact ⟨r', rfl⟩
      · next hne =>
        rcases List.mem_cons.mp h with rfl | h
        · simp at hne
        · exact lookup_found h

theorem mapM_forall₂ {A B : Type} {f : A → Option R} {Q : B → R → Prop} :
    ∀ {l : List A} {ts : List B}, List.Forall₂ (fun i t => ∃ r, f i = some r ∧ Q t r) l ts →
      ∃ rs, l.mapM f = some rs ∧ List.Forall₂ Q ts rs
  | [], [], .nil => ⟨[], rfl, .nil⟩
  | i :: l, t :: ts, .cons ⟨r, hr, hq⟩ h => by
      obtain ⟨rs, hrs, hqs⟩ := mapM_forall₂ h
      exact ⟨r :: rs, by simp [List.mapM_cons, hr, hrs], .cons hq hqs⟩

/-- Once nothing waits or runs, the results are read off in the order of the tasks. -/
theorem inOrder_spec {tasks : List T} (missing : ε) {results : List (ℕ × R)}
    (h : Accounted tasks Post [] [] results) :
    ∃ rs, (inOrder missing results : Program σ ε (List R)) = pure rs ∧
      List.Forall₂ Post tasks rs := by
  have hperm : (results.map (·.1)).Perm (List.range tasks.length) := by simpa using h.numbers
  have hlen : results.length = tasks.length := by simpa using hperm.length_eq
  have hall : List.Forall₂ (fun i t => ∃ r, results.lookup i = some r ∧ Post t r)
      (List.range results.length) tasks := by
    refine List.forall₂_iff_get.mpr ⟨by simp [hlen], fun i hi hi' => ?_⟩
    have hnumber : i ∈ results.map (·.1) :=
      hperm.symm.subset (List.mem_range.mpr hi')
    obtain ⟨r, hr⟩ := lookup_found hnumber
    obtain ⟨t, ht, hpost⟩ := h.finished _ (lookup_mem hr)
    obtain ⟨hlt, rfl⟩ := List.getElem?_eq_some_iff.mp ht
    exact ⟨r, by simpa using hr, hpost⟩
  obtain ⟨rs, hrs, hposts⟩ := mapM_forall₂ hall
  exact ⟨rs, by rw [inOrder, hrs], hposts⟩

/-- RUN: the pool keeps what each task keeps, and if it returns, it returns what each task does, in
    the order of the tasks. -/
theorem runPool_spec (hwork : ∀ t, Triple P (work t) (fun r s => P s ∧ Post t r) P)
    (schedule : Schedule) (missing : ε) {workers : ℕ} (hworkers : 0 < workers) (tasks : List T) :
    Triple P (runPool schedule work missing workers tasks)
      (fun rs s => P s ∧ List.Forall₂ Post tasks rs) P := by
  refine Triple.bind (poolLoop_spec hwork 0 _ _ _ (Accounted.start tasks hworkers)) fun results => ?_
  rintro s ⟨hs, haccount⟩
  obtain ⟨rs, hrs, hposts⟩ := inOrder_spec (σ := σ) missing haccount
  rw [hrs]
  exact ⟨hs, hposts⟩

end Dpone.Schemes
