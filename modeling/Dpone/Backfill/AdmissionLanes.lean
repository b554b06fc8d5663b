import Mathlib.Data.List.Nodup
import Dpone.Backfill.AdmissionGate

/-! Parallel lanes behind one admission gate.

    `run_parallel_chunk_lanes` puts the pending chunks in a queue that a fixed number of lanes
    empties. A lane looks at the flag, takes a chunk, looks again, and claims the chunk through the
    gate; what the claim comes to, when a chunk fails, and where an exception interrupts a lane or
    the coordinator is up to the environment. A chunk is known by its place in the pending list.

    RUN: whatever the interleaving, no chunk is claimed after a claim failed or a `close` returned,
    every chunk is claimed at most once, and a claim was run exactly for the chunks it was returned
    for. -/

namespace Dpone.Backfill
open Dpone.Schemes

inductive LaneParty where
  | coordinator
  | lane (id : ℕ)
  deriving DecidableEq, Repr

/-- Where a party is outside the gate. -/
inductive LanePc where
  /-- The contexts of `_run_lane` are entered. -/
  | opening
  /-- `while not admission.closed`. -/
  | looping
  /-- `chunk_queue.get_nowait()`. -/
  | taking
  /-- The second look at `admission.closed`. -/
  | checking (chunk : ℕ)
  /-- `_run_one` before the claim. -/
  | starting (chunk : ℕ)
  /-- `admission.acquire`. -/
  | acquiring (chunk : ℕ)
  /-- The chunk is run under its lease. -/
  | running (chunk : ℕ)
  /-- A chunk was not run, or an exception is on its way out. -/
  | failing
  | finished
  /-- The coordinator waits for its lanes. -/
  | watching
  deriving DecidableEq, Repr

/-- The chunk a lane holds. -/
def LanePc.chunk : LanePc → Option ℕ
  | checking c | starting c | acquiring c | running c => some c
  | _ => none

inductive LaneAct where
  | opened | interrupted | look | take | lookAgain | completed | finish
  | gate (act : GateAct)
  deriving DecidableEq, Repr

structure Lanes where
  gate : Gate LaneParty
  pc : LaneParty → LanePc
  queue : List ℕ
  /-- The chunks whose claim callback was run, in order. -/
  claims : List ℕ
  /-- What `acquire` returned for each chunk; `none` is a refusal without a claim. -/
  outcomes : List (ℕ × Option GateReply)

/-- `lane_count = min(workers, len(pending))` lanes and the queue of all chunks. -/
def Lanes.init (workers pending : ℕ) : Lanes where
  gate := Gate.init LaneParty
  pc
    | .coordinator => .watching
    | .lane n => if n < min workers pending then .opening else .finished
  queue := List.range pending
  claims := []
  outcomes := []

/-- Where a lane's program goes with a step in the gate. -/
def LanePc.follow : LanePc → GateAct → Option LanePc
  | starting c, .callAcquire => some (acquiring c)
  | acquiring c, .lockAcquire | acquiring c, .refuse | acquiring c, .letIn => some (acquiring c)
  | acquiring c, .reply _ | acquiring c, .settle _ => some (acquiring c)
  | acquiring c, .leave (some .acquired) => some (running c)
  | acquiring _, .leave _ => some failing
  | running c, .callClose | running c, .lockClose | running c, .setClosed
  | running c, .returnClose => some (running c)
  | failing, .callClose | failing, .lockClose | failing, .setClosed | failing, .returnClose =>
    some failing
  | watching, .callClose | watching, .lockClose | watching, .setClosed | watching, .returnClose =>
    some watching
  | _, _ => none

/-- The claim callback runs for the lane's chunk. -/
def claimed (pc : LanePc) : GateAct → List ℕ
  | .letIn => pc.chunk.toList
  | _ => []

/-- `acquire` returns for the lane's chunk. -/
def returned (pc : LanePc) : GateAct → List (ℕ × Option GateReply)
  | .leave outcome => pc.chunk.toList.map fun c => (c, outcome)
  | _ => []

namespace Lanes

def move (w : Lanes) (p : LaneParty) (pc : LanePc) : Lanes :=
  { w with pc := Function.update w.pc p pc }

/-- One step of a party outside the gate. -/
def outer (w : Lanes) (p : LaneParty) : LaneAct → Option Lanes
  | .opened => if w.pc p = .opening then some (w.move p .looping) else none
  | .interrupted => some (w.move p .failing)
  | .look =>
    if w.pc p = .looping then some (w.move p (if w.gate.closed then .finished else .taking))
    else none
  | .take =>
    if w.pc p = .taking then
      match w.queue with
      | [] => some (w.move p .finished)
      | c :: rest => some { w.move p (.checking c) with queue := rest }
    else none
  | .lookAgain =>
    match w.pc p with
    | .checking c => some (w.move p (if w.gate.closed then .finished else .starting c))
    | _ => none
  | .completed =>
    match w.pc p with
    | .running _ => some (w.move p .looping)
    | _ => none
  | .finish =>
    if w.pc p = .failing ∨ w.pc p = .watching then some (w.move p .finished) else none
  | .gate _ => none

/-- One step of a party: in the gate as far as its program goes there, else outside of it. -/
def step (w : Lanes) (p : LaneParty) : LaneAct → Option Lanes
  | .gate a => do
    let pc ← (w.pc p).follow a
    let gate ← w.gate.step p a
    return { w.move p pc with
      gate := gate
      claims := w.claims ++ claimed (w.pc p) a
      outcomes := w.outcomes ++ returned (w.pc p) a }
  | act => if w.gate.pc p = .outside then w.outer p act else none

end Lanes

/-- The step relation of the lanes, for runs. -/
def LaneStep (w : Lanes) (l : LaneParty × LaneAct) (w' : Lanes) : Prop := w.step l.1 l.2 = some w'

/-! ### Custody of chunks -/

/-- How far the claim of a held chunk has come. -/
inductive ClaimPhase where
  | before | refused | flight | after
  deriving DecidableEq, Repr

/-- What there is to know about chunks: which wait, who holds which, which were claimed and with
    what outcome. -/
structure ClaimLedger (P : Type) where
  queue : List ℕ
  holds : P → Option (ℕ × ClaimPhase)
  claims : List ℕ
  outcomes : List (ℕ × Option GateReply)

namespace ClaimLedger
variable {P : Type} [DecidableEq P]

/-- What a party may do with the chunk it holds. -/
inductive Step : ClaimLedger P → ClaimLedger P → Prop
  | keep (w : ClaimLedger P) : Step w w
  | drop {w : ClaimLedger P} {p : P} {c : ℕ} {f : ClaimPhase} : w.holds p = some (c, f) →
      f ≠ .flight → Step w { w with holds := Function.update w.holds p none }
  | take {w : ClaimLedger P} {p : P} {c : ℕ} {rest : List ℕ} : w.queue = c :: rest →
      w.holds p = none → Step w { w with queue := rest, holds := Function.update w.holds p (some (c, .before)) }
  | refuse {w : ClaimLedger P} {p : P} {c : ℕ} : w.holds p = some (c, .before) →
      Step w { w with holds := Function.update w.holds p (some (c, .refused)) }
  | claim {w : ClaimLedger P} {p : P} {c : ℕ} : w.holds p = some (c, .before) →
      Step w { w with
        holds := Function.update w.holds p (some (c, .flight)), claims := w.claims ++ [c] }
  | answer {w : ClaimLedger P} {p : P} {c : ℕ} {reply : GateReply}
      {held : Option (ℕ × ClaimPhase)} : w.holds p = some (c, .flight) →
      held = none ∨ held = some (c, .after) →
      Step w { w with
        holds := Function.update w.holds p held, outcomes := w.outcomes ++ [(c, some reply)] }
  | turnAway {w : ClaimLedger P} {p : P} {c : ℕ} : w.holds p = some (c, .refused) →
      Step w { w with
        holds := Function.update w.holds p none, outcomes := w.outcomes ++ [(c, none)] }

/-- INVARIANT: a chunk waits, or is held by one party, or is done with; it is claimed at most once,
    before any outcome, and its outcome says whether it was. -/
structure Sound (w : ClaimLedger P) : Prop where
  fresh : w.queue.Nodup
  held : ∀ {p c f}, w.holds p = some (c, f) → c ∉ w.queue
  own : ∀ {p q c f f'}, w.holds p = some (c, f) → w.holds q = some (c, f') → p = q
  once : w.claims.Nodup
  spent : ∀ {c}, c ∈ w.claims → c ∉ w.queue ∧
    ∀ {p f}, w.holds p = some (c, f) → f = .flight ∨ f = .after
  flight : ∀ {p c}, w.holds p = some (c, .flight) → c ∈ w.claims
  outcome : ∀ {c r}, (c, r) ∈ w.outcomes → c ∉ w.queue ∧ (r.isSome = true ↔ c ∈ w.claims) ∧
    ∀ {p f}, w.holds p = some (c, f) → f = .after
  settled : ∀ {c}, c ∈ w.claims →
    (∃ reply, (c, some reply) ∈ w.outcomes) ∨ ∃ p, w.holds p = some (c, .flight)

omit [DecidableEq P] in
/-- A new ledger's chunks wait. -/
theorem Sound.start (n : ℕ) :
    ({ queue := List.range n, holds := fun _ => none, claims := [], outcomes := [] } :
      ClaimLedger P).Sound := by
  constructor
  case fresh => exact List.nodup_range
  all_goals simp

/-- Claims in flight go on when another chunk, or no claim, changes hands. -/
theorem settled_frame {w : ClaimLedger P} {p : P} {held : Option (ℕ × ClaimPhase)} {c : ℕ}
    (h : (∃ reply, (c, some reply) ∈ w.outcomes) ∨ ∃ q, w.holds q = some (c, .flight))
    (hp : w.holds p ≠ some (c, .flight)) :
    (∃ reply, (c, some reply) ∈ w.outcomes) ∨
      ∃ q, Function.update w.holds p held q = some (c, .flight) := by
  refine h.imp_right fun ⟨q, hq⟩ => ⟨q, ?_⟩
  rwa [Function.update_of_ne]
  rintro rfl
  exact hp hq

/-- STEP: the invariant is kept. -/
theorem Sound.step {w w' : ClaimLedger P} (h : w.Sound) (hstep : Step w w') : w'.Sound := by
  obtain ⟨fresh, held, own, once, spent, flight, outcome, settled⟩ := h
  cases hstep with
  | keep => exact ⟨fresh, held, own, once, spent, flight, outcome, settled⟩
  | drop hp hf =>
    constructor
    case settled => exact fun hc => settled_frame (settled hc) (by simp [hp, hf])
    all_goals grind [Function.update_apply]
  | take hq hp =>
    constructor
    case settled => exact fun hc => settled_frame (settled hc) (by simp [hp])
    all_goals grind [Function.update_apply]
  | refuse hp =>
    constructor
    case settled => exact fun hc => settled_frame (settled hc) (by simp [hp])
    all_goals grind [Function.update_apply]
  | @claim p c hp =>
    constructor
    case settled =>
      intro c' hc'
      rcases List.mem_append.mp hc' with hc' | hc'
      · exact settled_frame (settled hc') (by simp [hp])
      · rw [List.mem_singleton.mp hc']
        exact .inr ⟨p, Function.update_self ..⟩
    all_goals grind [Function.update_apply]
  | @answer p c reply _ hp hheld =>
    constructor
    case settled =>
      intro c' hc'
      by_cases heq : c' = c
      · exact .inl ⟨reply, by simp [heq]⟩
      · refine (settled_frame (settled hc') ?_).imp_left fun ⟨r, hr⟩ => ⟨r, by simp [hr]⟩
        rw [hp]
        simpa using Ne.symm heq
    all_goals grind [Function.update_apply]
  | turnAway hp =>
    constructor
    case settled =>
      intro c' hc'
      exact (settled_frame (settled hc') (by simp [hp])).imp_left fun ⟨r, hr⟩ => ⟨r, by simp [hr]⟩
    all_goals grind [Function.update_apply]

end ClaimLedger

/-! ### Lanes keep custody -/

/-- The chunk a party holds, and how far its claim has come. -/
def claimPhase : LanePc → GatePc → Option (ℕ × ClaimPhase)
  | .checking c, _ | .starting c, _ => some (c, .before)
  | .acquiring c, .entering | .acquiring c, .testing => some (c, .before)
  | .acquiring c, .leaving none => some (c, .refused)
  | .acquiring c, .claiming | .acquiring c, .replied _ | .acquiring c, .leaving (some _) =>
    some (c, .flight)
  | .running c, _ => some (c, .after)
  | _, _ => none

namespace Lanes

def ledger (w : Lanes) : ClaimLedger LaneParty where
  queue := w.queue
  holds p := claimPhase (w.pc p) (w.gate.pc p)
  claims := w.claims
  outcomes := w.outcomes

/-- FRAME: outside the gate only the party's own place changes. -/
theorem ledger_move (w : Lanes) (p : LaneParty) (pc : LanePc) :
    (w.move p pc).ledger = { w.ledger with
      holds := Function.update w.ledger.holds p (claimPhase pc (w.gate.pc p)) } := by
  simp only [ledger, move, ClaimLedger.mk.injEq, true_and, and_true]
  funext q
  by_cases hq : q = p
  · subst hq
    simp
  · simp [Function.update_of_ne hq]

/-- A chunk that is not in flight may be put down. -/
theorem put_down {w : Lanes} {p : LaneParty} (h : ∀ c, w.ledger.holds p ≠ some (c, .flight)) :
    ClaimLedger.Step w.ledger { w.ledger with
      holds := Function.update w.ledger.holds p none } := by
  cases hp : w.ledger.holds p with
  | none =>
    rw [← hp, Function.update_eq_self]
    exact .keep _
  | some held =>
    obtain ⟨c, f⟩ := held
    exact .drop hp fun hf => h c (by rw [hp, hf])

/-- Nothing is in flight outside the gate. -/
theorem not_flight {w : Lanes} {p : LaneParty} (h : w.gate.pc p = .outside) (c : ℕ) :
    w.ledger.holds p ≠ some (c, .flight) := by
  simp only [ledger, h]
  cases w.pc p <;> simp [claimPhase]

/-- A party that goes where it holds no chunk. -/
theorem leaves_chunk {w : Lanes} {p : LaneParty} (pc : LanePc) (hout : w.gate.pc p = .outside)
    (hpc : claimPhase pc .outside = none) : ClaimLedger.Step w.ledger (w.move p pc).ledger := by
  rw [ledger_move, hout, hpc]
  exact put_down (not_flight hout)

/-- STEP: a step outside the gate keeps custody. -/
theorem outer_custody {w w' : Lanes} {p : LaneParty} {act : LaneAct}
    (hout : w.gate.pc p = .outside) (h : w.outer p act = some w') :
    ClaimLedger.Step w.ledger w'.ledger ∧ w'.gate = w.gate := by
  cases act with
  | opened =>
    simp only [outer, Option.ite_none_right_eq_some, Option.some.injEq] at h
    obtain ⟨-, rfl⟩ := h
    exact ⟨leaves_chunk .looping hout rfl, rfl⟩
  | interrupted =>
    obtain rfl := Option.some.inj h
    exact ⟨leaves_chunk .failing hout rfl, rfl⟩
  | look =>
    simp only [outer, Option.ite_none_right_eq_some, Option.some.injEq] at h
    obtain ⟨-, rfl⟩ := h
    refine ⟨leaves_chunk _ hout ?_, rfl⟩
    split_ifs <;> rfl
  | take =>
    simp only [outer, Option.ite_none_right_eq_some] at h
    obtain ⟨hpc, h⟩ := h
    have hnone : w.ledger.holds p = none := by simp [ledger, hpc, claimPhase]
    cases hqueue : w.queue with
    | nil =>
      rw [hqueue] at h
      obtain rfl := Option.some.inj h
      exact ⟨leaves_chunk .finished hout rfl, rfl⟩
    | cons c rest =>
      rw [hqueue] at h
      obtain rfl := Option.some.inj h
      have hledger : ({ w.move p (.checking c) with queue := rest } : Lanes).ledger =
          { (w.move p (.checking c)).ledger with queue := rest } := rfl
      rw [hledger, ledger_move]
      exact ⟨.take hqueue hnone, rfl⟩
  | lookAgain =>
    simp only [outer] at h
    split at h
    · next c hpc =>
      obtain rfl := Option.some.inj h
      split_ifs
      · exact ⟨leaves_chunk .finished hout rfl, rfl⟩
      · have hsame : claimPhase (.starting c) (w.gate.pc p) = w.ledger.holds p := by
          simp [ledger, hpc, claimPhase]
        rw [ledger_move, hsame, Function.update_eq_self]
        exact ⟨.keep _, rfl⟩
    · cases h
  | completed =>
    simp only [outer] at h
    split at h
    · obtain rfl := Option.some.inj h
      exact ⟨leaves_chunk .looping hout rfl, rfl⟩
    · cases h
  | finish =>
    simp only [outer, Option.ite_none_right_eq_some, Option.some.injEq] at h
    obtain ⟨-, rfl⟩ := h
    exact ⟨leaves_chunk .finished hout rfl, rfl⟩
  | gate a => cases h

/-- The ledger after a step in the gate. -/
theorem ledger_gate {w : Lanes} {p : LaneParty} {pc : LanePc} {gate : Gate LaneParty}
    {a : GateAct} (h : w.gate.step p a = some gate) :
    ({ w.move p pc with
      gate := gate
      claims := w.claims ++ claimed (w.pc p) a
      outcomes := w.outcomes ++ returned (w.pc p) a } : Lanes).ledger = {
        queue := w.queue
        holds := Function.update w.ledger.holds p (claimPhase pc a.target)
        claims := w.claims ++ claimed (w.pc p) a
        outcomes := w.outcomes ++ returned (w.pc p) a } := by
  simp only [ledger, move, ClaimLedger.mk.injEq, true_and, and_true]
  funext q
  by_cases hq : q = p
  · subst hq
    simp [(Gate.step_self h).2]
  · simp [Function.update_of_ne hq, Gate.step_other h hq]

/-- A step in the gate that changes nothing about the chunk. -/
theorem same_custody {w : Lanes} {p : LaneParty} {held : Option (ℕ × ClaimPhase)}
    {claims : List ℕ} {outcomes : List (ℕ × Option GateReply)} (hheld : w.ledger.holds p = held)
    (hclaims : claims = []) (houtcomes : outcomes = []) :
    ClaimLedger.Step w.ledger {
      queue := w.queue, holds := Function.update w.ledger.holds p held,
      claims := w.claims ++ claims, outcomes := w.outcomes ++ outcomes } := by
  subst hclaims houtcomes
  rw [← hheld, Function.update_eq_self, List.append_nil, List.append_nil]
  exact .keep _

/-- STEP: a step in the gate keeps custody. -/
theorem gate_custody {w w' : Lanes} {p : LaneParty} {a : GateAct}
    (h : w.step p (.gate a) = some w') :
    ClaimLedger.Step w.ledger w'.ledger ∧ w.gate.step p a = some w'.gate := by
  simp only [step, Option.bind_eq_bind, Option.bind_eq_some_iff, pure, Option.some.injEq] at h
  obtain ⟨pc, hfollow, gate, hgate, rfl⟩ := h
  refine ⟨?_, hgate⟩
  rw [ledger_gate hgate]
  have hsource : w.gate.pc p = a.source := (Gate.step_self hgate).1
  have hphase : w.ledger.holds p = claimPhase (w.pc p) a.source := by rw [← hsource]; rfl
  cases hpc : w.pc p with
  | starting c =>
    rw [hpc] at hfollow hphase
    cases a <;> cases hfollow
    exact same_custody hphase rfl rfl
  | acquiring c =>
    rw [hpc] at hfollow hphase
    cases a with
    | lockAcquire => cases hfollow; exact same_custody hphase rfl rfl
    | refuse =>
      cases hfollow
      simp only [claimed, returned, List.append_nil]
      exact .refuse hphase
    | letIn =>
      cases hfollow
      simp only [returned, List.append_nil]
      exact .claim hphase
    | reply r => cases hfollow; exact same_custody hphase rfl rfl
    | settle r => cases hfollow; exact same_custody hphase rfl rfl
    | leave outcome =>
      simp only [claimed, List.append_nil]
      cases outcome with
      | none =>
        cases hfollow
        exact .turnAway hphase
      | some r =>
        cases r with
        | acquired =>
          cases hfollow
          exact .answer hphase (.inr rfl)
        | rejected =>
          cases hfollow
          exact .answer hphase (.inl rfl)
        | raised =>
          cases hfollow
          exact .answer hphase (.inl rfl)
    | _ => cases hfollow
  | running c =>
    rw [hpc] at hfollow hphase
    cases a <;> cases hfollow <;> exact same_custody hphase rfl rfl
  | failing =>
    rw [hpc] at hfollow hphase
    cases a <;> cases hfollow <;> exact same_custody hphase rfl rfl
  | watching =>
    rw [hpc] at hfollow hphase
    cases a <;> cases hfollow <;> exact same_custody hphase rfl rfl
  | _ =>
    rw [hpc] at hfollow
    cases a <;> cases hfollow

/-- STEP: a step of the lanes is a step with the chunks, and in the gate where it says so. -/
theorem step_custody {w w' : Lanes} {p : LaneParty} {act : LaneAct}
    (h : w.step p act = some w') : ClaimLedger.Step w.ledger w'.ledger := by
  cases act with
  | gate a => exact (gate_custody h).1
  | _ =>
    simp only [step, Option.ite_none_right_eq_some] at h
    exact (outer_custody h.1 h.2).1

end Lanes

/-- The step in the gate that a step of the lanes is. -/
def gateLabel : LaneParty × LaneAct → Option (LaneParty × GateAct)
  | (p, .gate a) => some (p, a)
  | _ => none

theorem gateLabel_some {l : LaneParty × LaneAct} {l' : LaneParty × GateAct}
    (h : gateLabel l = some l') : l = (l'.1, .gate l'.2) := by
  obtain ⟨p, act⟩ := l
  cases act <;> cases h
  rfl

variable {workers pending : ℕ} {τ : List (Lanes × (LaneParty × LaneAct))} {w : Lanes}

/-- RUN: the gate of the lanes is one that any parties may call. -/
theorem lanes_refine_gate (h : Run LaneStep (Lanes.init workers pending) τ w) :
    Run GateStep (Gate.init LaneParty)
      (τ.filterMap fun p => (gateLabel p.2).map fun l => (p.1.gate, l)) w.gate := by
  refine Run.simulates Lanes.gate gateLabel ?_ ?_ h
  · rintro s ⟨p, act⟩ s' hs hl
    cases act with
    | gate a => cases hl
    | _ =>
      simp only [LaneStep, Lanes.step, Option.ite_none_right_eq_some] at hs
      exact (Lanes.outer_custody hs.1 hs.2).2
  · intro s l s' l' hs hl
    rw [gateLabel_some hl] at hs
    exact (Lanes.gate_custody hs).2

/-- RUN: the lanes keep custody of their chunks. -/
theorem lanes_custody (h : Run LaneStep (Lanes.init workers pending) τ w) : w.ledger.Sound := by
  have hstart : (Lanes.init workers pending).ledger = {
      queue := List.range pending, holds := fun _ => none, claims := [], outcomes := [] } := by
    simp only [Lanes.ledger, Lanes.init, ClaimLedger.mk.injEq, true_and, and_true]
    funext p
    cases p with
    | coordinator => rfl
    | lane n =>
      simp only
      split_ifs <;> rfl
  refine Run.invariant (I := fun w => w.ledger.Sound) ?_ ?_ h
  · rw [hstart]
    exact .start pending
  · rintro s ⟨p, act⟩ s' hI hs
    exact hI.step (Lanes.step_custody hs)

/-- The step that closes the gate of the lanes. -/
def closesLanes (p : Lanes × (LaneParty × LaneAct)) : Bool :=
  match p.2.2 with
  | .gate a => !p.1.gate.closed && a.closes
  | _ => false

/-- A claim callback is run for the chunk of the lane that is admitted. -/
theorem claimed_length {pc pc' : LanePc} {a : GateAct} (h : pc.follow a = some pc') :
    (claimed pc a).length = if a = .letIn then 1 else 0 := by
  cases a with
  | letIn => cases pc <;> cases h; rfl
  | _ => rfl

theorem outer_claims {w w' : Lanes} {p : LaneParty} {act : LaneAct}
    (h : w.outer p act = some w') : w'.claims = w.claims := by
  cases act <;> simp only [Lanes.outer, Option.ite_none_right_eq_some] at h
  case take =>
    obtain ⟨-, h⟩ := h
    split at h <;> cases h <;> rfl
  case lookAgain | completed =>
    split at h
    · cases h
      rfl
    · cases h
  case interrupted => cases h; rfl
  case gate => cases h
  all_goals
    obtain ⟨-, h⟩ := h
    cases h
    rfl

/-- RUN: a claim callback is run at every admission and at no other step. -/
theorem claims_counted (h : Run LaneStep (Lanes.init workers pending) τ w) :
    τ.countP (fun p => p.2.2 = .gate .letIn) = w.claims.length := by
  refine Run.counts (f := fun w => w.claims.length) rfl ?_ h
  rintro s ⟨p, act⟩ s' hs
  cases act with
  | gate a =>
    simp only [LaneStep, Lanes.step, Option.bind_eq_bind, Option.bind_eq_some_iff, pure,
      Option.some.injEq] at hs
    obtain ⟨pc, hfollow, gate, -, rfl⟩ := hs
    simp [List.length_append, claimed_length hfollow]
  | _ =>
    simp only [LaneStep, Lanes.step, Option.ite_none_right_eq_some] at hs
    simp [outer_claims hs.2]

/-- A claim in flight is one whose lane is in the gate. -/
theorem in_flight {w : Lanes} {p : LaneParty} {c : ℕ}
    (h : w.ledger.holds p = some (c, .flight)) :
    w.pc p = .acquiring c ∧ (w.gate.pc p).inside = true := by
  simp only [Lanes.ledger] at h
  generalize w.pc p = pc at h ⊢
  generalize w.gate.pc p = place at h ⊢
  unfold claimPhase at h
  split at h <;> cases h <;> exact ⟨rfl, rfl⟩

/-- RUN, INVARIANT: for every interleaving of any number of lanes and their coordinator,
    no claim is run after a claim was rejected or has raised or a `close` has returned; every chunk's
    claim is run at most once, once exactly where `acquire` came back with its outcome and never
    where it refused; and the gate goes from open to closed once at most and never back. -/
theorem lanes_admission (h : Run LaneStep (Lanes.init workers pending) τ w) :
    (∀ τ₁ p τ₂ a, τ = τ₁ ++ p :: τ₂ → p.2.2 = .gate a → a.stops = true →
      ∀ q ∈ τ₂, q.2.2 ≠ .gate .letIn) ∧
    (τ.countP (fun p => p.2.2 = .gate .letIn) = w.claims.length ∧
      (∀ c, w.claims.count c ≤ 1) ∧
      (∀ c outcome, (c, outcome) ∈ w.outcomes →
        w.claims.count c = if outcome.isSome then 1 else 0) ∧
      ∀ c ∈ w.claims, (∃ reply, (c, some reply) ∈ w.outcomes) ∨
        ∃ p, w.pc p = .acquiring c ∧ (w.gate.pc p).inside = true) ∧
    τ.countP closesLanes = (if w.gate.closed then 1 else 0) ∧
    ∀ p ∈ τ, p.1.gate.closed = true → w.gate.closed = true := by
  have hgate := lanes_refine_gate h
  have hsound := lanes_custody h
  refine ⟨?_, ⟨claims_counted h, ?_, ?_, ?_⟩, ?_, ?_⟩
  · rintro τ₁ ⟨s, p, act⟩ τ₂ a rfl rfl hstops ⟨s', p', act'⟩ hq rfl
    rw [List.filterMap_append, List.filterMap_cons] at hgate
    refine gate_admits_none_after hgate rfl hstops (s'.gate, (p', .letIn)) ?_ rfl
    exact List.mem_filterMap.mpr ⟨_, hq, rfl⟩
  · exact fun c => List.nodup_iff_count_le_one.mp hsound.once c
  · intro c outcome hmem
    obtain ⟨-, hclaimed, -⟩ := hsound.outcome hmem
    split_ifs with hsome
    · exact List.count_eq_one_of_mem hsound.once (hclaimed.mp hsome)
    · exact List.count_eq_zero.mpr fun hc => hsome (hclaimed.mpr hc)
  · intro c hc
    refine (hsound.settled hc).imp_right fun ⟨p, hp⟩ => ⟨p, ?_⟩
    exact in_flight hp
  · rw [← gate_closes_once hgate, List.countP_filterMap]
    refine List.countP_congr fun ⟨s, p, act⟩ _ => ?_
    cases act <;> rfl
  · refine Run.persists (I := fun _ => True) (P := fun w => w.gate.closed = true) ?_ h
      fun _ _ => trivial
    rintro s ⟨p, act⟩ s' _ hclosed hs
    cases act with
    | gate a => exact closed_step (Lanes.gate_custody hs).2 hclosed
    | _ =>
      simp only [LaneStep, Lanes.step, Option.ite_none_right_eq_some] at hs
      rw [(Lanes.outer_custody hs.1 hs.2).2]
      exact hclosed

/-- Two lanes take a chunk each; the claim of one is rejected while the other waits at the gate. -/
def race : List (LaneParty × LaneAct) :=
  let upTo (n : ℕ) : List (LaneParty × LaneAct) :=
    [.opened, .look, .take, .lookAgain, .gate .callAcquire].map fun act => (.lane n, act)
  upTo 0 ++ [(.lane 0, .gate .lockAcquire), (.lane 0, .gate .letIn)] ++ upTo 1 ++
    [.reply .rejected, .settle .rejected, .leave (some .rejected)].map
      (fun a => (.lane 0, .gate a)) ++
    [.lockAcquire, .refuse, .leave none].map fun a => (.lane 1, .gate a)

theorem lanes_admission_of_race :
    ∃ τ w, Run LaneStep (Lanes.init 2 2) τ w ∧ w.claims = [0] ∧
      w.outcomes = [(0, some .rejected), (1, none)] ∧ w.gate.closed = true ∧
      τ.countP closesLanes = if w.gate.closed then 1 else 0 := by
  have hends : (execute (fun w l => Lanes.step w l.1 l.2) (Lanes.init 2 2) race).map
      (fun r => (r.2.claims, r.2.outcomes, r.2.gate.closed)) =
        some ([0], [(0, some .rejected), (1, none)], true) := by decide
  obtain ⟨⟨τ, w⟩, hexec, hw⟩ := Option.map_eq_some_iff.mp hends
  have hrun : Run LaneStep (Lanes.init 2 2) τ w := run_of_execute hexec
  obtain ⟨hclaims, houtcomes, hclosed⟩ := by simpa using hw
  exact ⟨τ, w, hrun, hclaims, houtcomes, hclosed, (lanes_admission hrun).2.2.1⟩

end Dpone.Backfill
