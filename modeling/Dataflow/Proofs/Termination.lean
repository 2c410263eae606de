import Mathlib.Data.Finset.Card
import Dataflow.Proofs.Reachability
import Dataflow.Proofs.Rounds
import Dataflow.Proofs.Serving

/-! # Differentiation comes to an end

    Differentiation goes on, round after round, until a round finds nothing that
    is complete.  The definition gives it a number of rounds to run for.  Here the
    loop is taken as it is meant, without any such number (`Growth.Loop`), and is
    shown to end before the number is used up.

    What feeds the loop is its own work, and a graph may have cycles, so there is
    no order of ops to go by.  Instead it is counted what may still have a turn:
    the ops that are not done with, and the tensors whose gradients have not been
    dealt with (`Backward.remaining`).  A turn adds to neither, and a round that
    finds anything takes something away. -/

namespace Dataflow

open Dataflow.Graph Relation

/-! ## Section 1: The loop -/

namespace Growth

/-- The tensors that have a turn. -/
def Round.tensors (r : Round) : List TensorId := r.arrivals.map Prod.fst

/-- The loop as such: from `b` it goes through `rounds`, and this is how it ends.
    The last round is the one that finds nothing, or the one that fails. -/
inductive Loop (options : GradientOptions) (ops : List OpId) :
    Backward → List Round → EStateM.Result GradientError Backward Unit → Prop where
  | done {b : Backward} (hidle : b.round.isIdle) : Loop options ops b [b.round] (.ok () b.cleared)
  | failed {b b' : Backward} {e : GradientError} (hbusy : ¬ b.round.isIdle)
      (hturns : turns options ops b.round b.cleared = .error e b') :
      Loop options ops b [b.round] (.error e b')
  | next {b b' : Backward} {rounds : List Round}
      {result : EStateM.Result GradientError Backward Unit} (hbusy : ¬ b.round.isIdle)
      (hturns : turns options ops b.round b.cleared = .ok () b')
      (hloop : Loop options ops b' rounds result) :
      Loop options ops b (b.round :: rounds) result

variable {options : GradientOptions} {ops : List OpId} {b b' : Backward} {rounds : List Round}
  {result : EStateM.Result GradientError Backward Unit}

/-- One round, followed by what is left of the number of rounds. -/
theorem propagate_succ_run (n : Nat) : propagate options ops (n + 1) b =
    if b.round.isIdle then .ok () b.cleared
    else match turns options ops b.round b.cleared with
      | .ok _ b' => propagate options ops n b'
      | .error e b' => .error e b' := by
  show (if b.round.isIdle then _ else _ : Growth Unit) b.cleared = _
  split
  · rfl
  · simp only [bind, EStateM.bind]
    cases turns options ops b.round b.cleared <;> rfl

/-- With enough rounds, the bounded loop ends as the loop does. -/
theorem Loop.propagate_eq (h : Loop options ops b rounds result) {n : Nat}
    (hn : rounds.length ≤ n) : propagate options ops n b = result := by
  induction h generalizing n with
  | done hidle =>
    obtain ⟨m, rfl⟩ : ∃ m, n = m + 1 := ⟨n - 1, by simp at hn; omega⟩
    rw [propagate_succ_run, if_pos hidle]
  | failed hbusy hturns =>
    obtain ⟨m, rfl⟩ : ∃ m, n = m + 1 := ⟨n - 1, by simp at hn; omega⟩
    rw [propagate_succ_run, if_neg hbusy, hturns]
  | next hbusy hturns _ ih =>
    obtain ⟨m, rfl⟩ : ∃ m, n = m + 1 := ⟨n - 1, by simp at hn; omega⟩
    rw [propagate_succ_run, if_neg hbusy, hturns]
    exact ih (by simpa using hn)

end Growth

/-! ## Section 2: What a round leaves to do -/

namespace Backward

variable {g : Graph} {options : GradientOptions} {ops os : List OpId}
  {ts : List (TensorId × List TensorId)} {b b' : Backward} {u : Unit}

/-- Of some ops and some tensors, those whose turn may still come. -/
def remaining (os : Finset OpId) (ts : Finset TensorId) (b : Backward) : Nat :=
  (os.filter (· ∉ b.outputs.closed)).card + (ts.filter b.partials.Awaits).card

/-- **The turn of an op.** -/
theorem Orderly.growGradOps {op : OpId} (h : b.Orderly g ops (op :: os) ts)
    (hrun : Growth.growGradOps options op b = .ok u b') :
    b'.Orderly g ops os ts ∧ b.Advances b' := by
  obtain ⟨o, specs, b₁, o', l, -, -, -, -, hspecs, -, hwaives, rfl⟩ :=
    Growth.growGradOps_eq_ok hrun
  have h₁ : b₁.Orderly g ops (op :: os) ts ∧ b.Advances b₁ := by
    refine forM_ok (P := fun s => s.Orderly g ops (op :: os) ts ∧ b.Advances s) hspecs
      ⟨h, .refl b⟩ fun spec _ s s' v hs hspec => ?_
    obtain ⟨hs', hadvances⟩ := hs.1.growGradOp hspec
    exact ⟨hs', hs.2.trans hadvances⟩
  obtain ⟨h₂, hadvances⟩ := h₁.1.waives hwaives
  exact ⟨h₂.next, h₁.2.trans hadvances⟩

/-- **All turns of a round.** -/
theorem Orderly.turns (hg : g.WellWired) (hops : ∀ op ∈ ops, (g.op? op).isSome)
    {r : Growth.Round} (h : b.Orderly g ops r.ops r.arrivals)
    (hrun : Growth.turns options ops r b = .ok u b') :
    b'.Orderly g ops [] [] ∧ b.Advances b' := by
  obtain ⟨os, ts⟩ := r
  obtain ⟨_, b₁, hfirst, hsecond⟩ := bind_eq_ok.1 hrun
  simp only at h hfirst hsecond
  -- the ops have their turns first
  have h₁ : b₁.Orderly g ops [] ts ∧ b.Advances b₁ := by
    clear hrun hsecond
    induction os generalizing b with
    | nil =>
      obtain ⟨-, rfl⟩ := pure_eq_ok.1 hfirst
      exact ⟨h, .refl b⟩
    | cons op os ih =>
      obtain ⟨_, s, hop, hrest⟩ := forM_cons_eq_ok.1 hfirst
      obtain ⟨hs, hadvances⟩ := h.growGradOps hop
      obtain ⟨hlast, hlater⟩ := ih hs hrest
      exact ⟨hlast, hadvances.trans hlater⟩
  obtain ⟨h₁, hadvances₁⟩ := h₁
  clear hrun hfirst h
  induction ts generalizing b₁ with
  | nil =>
    obtain ⟨-, rfl⟩ := pure_eq_ok.1 hsecond
    exact ⟨h₁, hadvances₁⟩
  | cons x ts ih =>
    obtain ⟨_, s, htensor, hrest⟩ := forM_cons_eq_ok.1 hsecond
    obtain ⟨hs, hadvances⟩ := h₁.growGradient hg hops htensor
    exact ih s hrest hs (hadvances₁.trans hadvances)

/-- Taking out what is complete takes nothing back. -/
theorem advances_cleared (b : Backward) : b.Advances b.cleared where
  gradOf _ ht := ht
  partials := b.partials.shifts_takeComplete
  closed _ hop := OutputGradients.mem_closed_takeComplete.2 (.inl hop)

/-- An op that is complete is one of `ops`, and its turn has not come before.
    Once it is taken out, its turn never comes again. -/
theorem Orderly.op_of_round (h : b.Orderly g ops [] []) (hb : b.cleared.Advances b') {op : OpId}
    (hop : op ∈ b.round.ops) :
    op ∈ ops ∧ op ∉ b.outputs.closed ∧ op ∈ b'.outputs.closed := by
  obtain ⟨hopen, i, htold⟩ := h.heard.complete op (Std.ExtTreeSet.mem_toList.1 hop)
  exact ⟨htold.1, hopen, hb.closed op (OutputGradients.mem_closed_takeComplete.2 (.inr hop))⟩

/-- The same for a tensor, which one of `ops` reads. -/
theorem Orderly.tensor_of_round (h : b.Orderly g ops [] []) (hb : b.cleared.Advances b')
    {t : TensorId} (ht : t ∈ b.round.tensors) :
    g.ReadBy ops t ∧ b.partials.Awaits t ∧ ¬ b'.partials.Awaits t := by
  have hawaits : b.partials.Awaits t := .inr (PartialGradients.mem_takeComplete.1 ht)
  refine ⟨h.read t (.inl hawaits), hawaits, fun hagain => ?_⟩
  exact h.takeComplete.due t ht (hb.partials.awaits t hagain)

/-- **A round that finds anything** leaves less to do. -/
theorem Orderly.remaining_lt (h : b.Orderly g ops [] []) {os : Finset OpId} {ts : Finset TensorId}
    (hos : ∀ op ∈ ops, op ∈ os) (hts : ∀ t, g.ReadBy ops t → t ∈ ts) (hbusy : ¬ b.round.isIdle)
    (hb : b.cleared.Advances b') : b'.remaining os ts < b.remaining os ts := by
  have hall := b.advances_cleared.trans hb
  have hopsle : os.filter (· ∉ b'.outputs.closed) ⊆ os.filter (· ∉ b.outputs.closed) :=
    Finset.monotone_filter_right _ fun op _ hop hclosed => hop (hall.closed op hclosed)
  have htsle : ts.filter b'.partials.Awaits ⊆ ts.filter b.partials.Awaits :=
    Finset.monotone_filter_right _ fun t _ ht => hall.partials.awaits t ht
  by_cases hnone : b.round.ops = []
  · -- then there is a tensor
    have hsome : b.round.tensors ≠ [] := by
      intro hnil
      exact hbusy (Growth.Round.isIdle_iff.2 ⟨hnone, List.map_eq_nil_iff.1 hnil⟩)
    obtain ⟨t, ht⟩ := List.exists_mem_of_ne_nil _ hsome
    obtain ⟨hread, hawaits, hdone⟩ := h.tensor_of_round hb ht
    have hlt : (ts.filter b'.partials.Awaits).card < (ts.filter b.partials.Awaits).card := by
      apply Finset.card_lt_card
      refine ⟨htsle, fun hback => hdone ?_⟩
      exact (Finset.mem_filter.1 (hback (Finset.mem_filter.2 ⟨hts t hread, hawaits⟩))).2
    exact Nat.add_lt_add_of_le_of_lt (Finset.card_le_card hopsle) hlt
  · obtain ⟨op, hop⟩ := List.exists_mem_of_ne_nil _ hnone
    obtain ⟨hmem, hopen, hclosed⟩ := h.op_of_round hb hop
    have hlt : (os.filter (· ∉ b'.outputs.closed)).card
        < (os.filter (· ∉ b.outputs.closed)).card := by
      apply Finset.card_lt_card
      refine ⟨hopsle, fun hback => ?_⟩
      exact (Finset.mem_filter.1 (hback (Finset.mem_filter.2 ⟨hos op hmem, hopen⟩))).2 hclosed
    exact Nat.add_lt_add_of_lt_of_le hlt (Finset.card_le_card htsle)

end Backward

/-! ## Section 3: Whole loops -/

namespace Growth

variable {g : Graph} {options : GradientOptions} {ops : List OpId} {b : Backward}
  {rounds : List Round} {result : EStateM.Result GradientError Backward Unit}

/-- **The loop ends**: less and less is left to do. -/
theorem exists_loop (options : GradientOptions) (hg : g.WellWired)
    (hops : ∀ op ∈ ops, (g.op? op).isSome) {os : Finset OpId} {ts : Finset TensorId}
    (hos : ∀ op ∈ ops, op ∈ os) (hts : ∀ t, g.ReadBy ops t → t ∈ ts)
    (h : b.Orderly g ops [] []) : ∃ rounds result, Loop options ops b rounds result := by
  induction hn : b.remaining os ts using Nat.strong_induction_on generalizing b with
  | _ n ih =>
    by_cases hidle : b.round.isIdle
    · exact ⟨_, _, .done hidle⟩
    · cases hturns : turns options ops b.round b.cleared with
      | error e b' => exact ⟨_, _, .failed hidle hturns⟩
      | ok _ b' =>
        obtain ⟨h', hadvances⟩ := h.takeComplete.turns hg hops (r := b.round) hturns
        have hless := h.remaining_lt hos hts hidle hadvances
        obtain ⟨rounds, result, hloop⟩ := ih _ (hn ▸ hless) h' rfl
        exact ⟨_, _, .next hidle hturns hloop⟩

/-- There is at most one round for each op and each tensor whose turn may come,
    and one more. -/
theorem Loop.length_le (hloop : Loop options ops b rounds result) (hg : g.WellWired)
    (hops : ∀ op ∈ ops, (g.op? op).isSome) {os : Finset OpId} {ts : Finset TensorId}
    (hos : ∀ op ∈ ops, op ∈ os) (hts : ∀ t, g.ReadBy ops t → t ∈ ts)
    (h : b.Orderly g ops [] []) : rounds.length ≤ 1 + b.remaining os ts := by
  induction hloop with
  | done _ => exact Nat.le_add_right 1 _
  | failed _ _ => exact Nat.le_add_right 1 _
  | next hbusy hturns _ ih =>
    obtain ⟨h', hadvances⟩ := h.takeComplete.turns hg hops hturns
    have hless := h.remaining_lt hos hts hbusy hadvances
    have hrest := ih h'
    rw [List.length_cons]
    omega

/-- What had its turn in a loop from `b`: ops among `ops` that were not done
    with, and tensors that they read and that awaited their turn, each of them
    once. -/
structure Serves (g : Graph) (ops : List OpId) (b : Backward) (rounds : List Round) : Prop where
  ops_mem : ∀ op ∈ rounds.flatMap Round.ops, op ∈ ops ∧ op ∉ b.outputs.closed
  ops_once : (rounds.flatMap Round.ops).Nodup
  tensors_read : ∀ t ∈ rounds.flatMap Round.tensors, g.ReadBy ops t ∧ b.partials.Awaits t
  tensors_once : (rounds.flatMap Round.tensors).Nodup

theorem Serves.nil : Serves g ops b [] := ⟨nofun, .nil, nofun, .nil⟩

/-- **One more round** in front of those that follow. -/
theorem Serves.cons {b' : Backward} (h : b.Orderly g ops [] []) (hb : b.cleared.Advances b')
    (hrest : Serves g ops b' rounds) : Serves g ops b (b.round :: rounds) := by
  have hall := b.advances_cleared.trans hb
  constructor
  · intro op hop
    rw [List.flatMap_cons, List.mem_append] at hop
    rcases hop with hnow | hlater
    · obtain ⟨hmem, hopen, -⟩ := h.op_of_round hb hnow
      exact ⟨hmem, hopen⟩
    · obtain ⟨hmem, hopen⟩ := hrest.ops_mem op hlater
      exact ⟨hmem, fun hclosed => hopen (hall.closed op hclosed)⟩
  · rw [List.flatMap_cons, List.nodup_append]
    refine ⟨h.takeComplete.once, hrest.ops_once, fun op hnow op' hlater heq => ?_⟩
    -- an op that has had its turn is done with
    obtain ⟨-, -, hclosed⟩ := h.op_of_round hb hnow
    exact (hrest.ops_mem op' hlater).2 (heq ▸ hclosed)
  · intro t ht
    rw [List.flatMap_cons, List.mem_append] at ht
    rcases ht with hnow | hlater
    · obtain ⟨hread, hawaits, -⟩ := h.tensor_of_round hb hnow
      exact ⟨hread, hawaits⟩
    · obtain ⟨hread, hawaits⟩ := hrest.tensors_read t hlater
      exact ⟨hread, hall.partials.awaits t hawaits⟩
  · rw [List.flatMap_cons, List.nodup_append]
    refine ⟨h.takeComplete.different, hrest.tensors_once, fun t hnow t' hlater heq => ?_⟩
    -- a tensor that has had its turn is not awaited any more
    obtain ⟨-, -, hdone⟩ := h.tensor_of_round hb hnow
    exact hdone (heq ▸ (hrest.tensors_read t' hlater).2)

/-- **Nothing has its turn twice** in a loop. -/
theorem Loop.serves (hloop : Loop options ops b rounds result) (hg : g.WellWired)
    (hops : ∀ op ∈ ops, (g.op? op).isSome) (h : b.Orderly g ops [] []) :
    Serves g ops b rounds := by
  induction hloop with
  | done _ => exact .cons h (.refl _) .nil
  | failed _ _ => exact .cons h (.refl _) .nil
  | next _ hturns _ ih =>
    obtain ⟨h', hadvances⟩ := h.takeComplete.turns hg hops hturns
    exact .cons h hadvances (ih h')

/-- Only the last round may be idle. -/
theorem Loop.busy (hloop : Loop options ops b rounds result) {before after : List Round}
    {round : Round} (hsplit : rounds = before ++ round :: after) (hafter : after ≠ []) :
    ¬ round.isIdle := by
  -- a loop of one round has no round before the last
  have hsingle : ∀ (r : Round) (before : List Round), [r] ≠ before ++ round :: after := by
    intro r before hr
    have hlength := congrArg List.length hr
    have hpos := List.length_pos_iff.2 hafter
    simp only [List.length_append, List.length_cons, List.length_nil] at hlength
    omega
  induction hloop generalizing before with
  | done _ => exact absurd hsplit (hsingle _ _)
  | failed _ _ => exact absurd hsplit (hsingle _ _)
  | next hbusy _ _ ih =>
    cases before with
    | nil =>
      cases hsplit
      exact hbusy
    | cons _ before =>
      cases hsplit
      exact ih rfl

end Growth

/-! ## Section 4: The loop of differentiation -/

/-- An op that is not done with can be told of an output that it has not heard
    of. -/
theorem OutputGradients.exists_insert (l : OutputGradients) (op : OpId) (o : Op) (index : Nat)
    (hopen : op ∉ l.closed) (hnew : index ∉ l.available op) :
    ∃ l', OutputGradients.insert op o index l = .ok () l' := by
  have hclosed : l.closed.contains op = false := by
    rw [Bool.eq_false_iff, Ne, Std.ExtTreeSet.contains_iff_mem]
    exact hopen
  have hheard : (l.available op).contains index = false := by
    rw [Bool.eq_false_iff, Ne, Std.ExtTreeSet.contains_iff_mem]
    exact hnew
  unfold OutputGradients.insert
  rw [hclosed, hheard]
  simp only [Bool.false_eq_true, if_false]
  split
  · exact ⟨_, rfl⟩
  · exact ⟨_, rfl⟩

namespace Growth

variable {g : Graph} {loss : TensorId} {type : TensorType} {p : OpId}

/-- **The seed** never fails once the loss is accepted. -/
theorem exists_seed (hg : g.WellWired) (hloss : g.lossProducer loss = .ok (type, p))
    {ops : List OpId} (hops : ∀ op ∈ ops, (g.op? op).isSome) :
    ∃ b, seed loss type ops (Backward.start g loss ops) = .ok () b := by
  obtain ⟨hproducer, -, hcount, hnames⟩ := lossProducer_accepts hloss
  have hfails : FailsOnly (fun _ => False) (seed loss type ops) (Backward.start g loss ops) := by
    refine failsOnly_seed (fun htaken => ?_) (fun hmisfit => ?_) fun s hadd => ?_
    · have hfree := hnames (Naming.grad loss) htaken
      rw [Naming.isReserved_grad] at hfree
      cases hfree
    · rw [fits_one_of_count hcount] at hmisfit
      cases hmisfit
    · have hextends := Backward.extends_start ops hg hadd
      refine failsOnly_tellProducer hextends.wellWired (fun hnone => ?_) fun op o index _ e l he => ?_
      · have hkept := hextends.toCarries.there (tensor_of_producer hproducer)
        rw [hnone] at hkept
        cases hkept
      · -- no op has been told of anything yet
        obtain ⟨required, houtputs, -⟩ := Backward.requireAll_eq g loss ops hops {}
        have hstart : (Backward.start g loss ops).outputs = { required := required } := houtputs
        obtain ⟨l', hinsert⟩ := OutputGradients.exists_insert { required := required } op o index
          (by simp) (by simp [OutputGradients.available])
        rw [← hstart] at hinsert
        cases hinsert.symm.trans he
  cases hrun : seed loss type ops (Backward.start g loss ops) with
  | ok _ b => exact ⟨b, rfl⟩
  | error e b => exact (hfails e b hrun).elim

/-- How the loop runs from `b`, for a loss that op number `p` produces: every
    round but the last gives a turn to an op or a tensor that has had none, no op
    and no tensor has two turns, and those that have one are ops with a data path
    to the loss and tensors that these ops read.  So there are at most as many
    rounds as there are such ops and tensors, and one more. -/
structure Exhausts (g : Graph) (options : GradientOptions) (p : OpId) (b : Backward)
    (rounds : List Round) (result : EStateM.Result GradientError Backward Unit) : Prop where
  loop : Loop options (g.opsToward p) b rounds result
  fresh : ∀ before round after, rounds = before ++ round :: after → after ≠ [] →
    (∃ op ∈ round.ops, op ∉ before.flatMap Round.ops) ∨
      ∃ t ∈ round.tensors, t ∉ before.flatMap Round.tensors
  ops_once : (rounds.flatMap Round.ops).Nodup
  ops_toward : ∀ op ∈ rounds.flatMap Round.ops, ReflTransGen g.Feeds op p
  tensors_once : (rounds.flatMap Round.tensors).Nodup
  tensors_read : ∀ t ∈ rounds.flatMap Round.tensors,
    ∃ op i, ReflTransGen g.Feeds op p ∧ g.inputAt op i = some t
  length_le : ∀ (os : Finset OpId) (ts : Finset TensorId),
    (∀ op, ReflTransGen g.Feeds op p → op ∈ os) →
    (∀ op i t, ReflTransGen g.Feeds op p → g.inputAt op i = some t → t ∈ ts) →
    rounds.length ≤ 1 + os.card + ts.card

/-- A loop in good order does all that. -/
theorem Loop.exhausts {options : GradientOptions} {b : Backward} {rounds : List Round}
    {result : EStateM.Result GradientError Backward Unit}
    (hloop : Loop options (g.opsToward p) b rounds result) (hg : g.WellWired)
    (hp : (g.op? p).isSome) (h : b.Orderly g (g.opsToward p) [] []) :
    Exhausts g options p b rounds result := by
  have hops : ∀ op ∈ g.opsToward p, (g.op? op).isSome := fun op hop => hg.opsToward_exist hp hop
  have hpath : ∀ {op}, op ∈ g.opsToward p ↔ ReflTransGen g.Feeds op p := hg.mem_opsToward hp
  have hserves := hloop.serves hg hops h
  refine ⟨hloop, ?_, hserves.ops_once, ?_, hserves.tensors_once, ?_, ?_⟩
  · intro before round after hsplit hafter
    have hopsOnce := hserves.ops_once
    have htensorsOnce := hserves.tensors_once
    rw [hsplit, List.flatMap_append, List.flatMap_cons, List.nodup_append] at hopsOnce htensorsOnce
    by_cases hnone : round.ops = []
    · have hsome : round.tensors ≠ [] := fun hnil =>
        hloop.busy hsplit hafter (Round.isIdle_iff.2 ⟨hnone, List.map_eq_nil_iff.1 hnil⟩)
      obtain ⟨t, ht⟩ := List.exists_mem_of_ne_nil _ hsome
      refine .inr ⟨t, ht, fun hbefore => ?_⟩
      exact htensorsOnce.2.2 t hbefore t (List.mem_append_left _ ht) rfl
    · obtain ⟨op, hop⟩ := List.exists_mem_of_ne_nil _ hnone
      refine .inl ⟨op, hop, fun hbefore => ?_⟩
      exact hopsOnce.2.2 op hbefore op (List.mem_append_left _ hop) rfl
  · intro op hop
    exact hpath.1 (hserves.ops_mem op hop).1
  · intro t ht
    obtain ⟨⟨op, hop, i, hin⟩, -⟩ := hserves.tensors_read t ht
    exact ⟨op, i, hpath.1 hop, hin⟩
  · intro os ts hos hts
    have hlength := hloop.length_le hg hops (fun op hop => hos op (hpath.1 hop))
      (fun t ⟨op, hop, i, hin⟩ => hts op i t (hpath.1 hop) hin) h
    have hos' := Finset.card_filter_le os (· ∉ b.outputs.closed)
    have hts' := Finset.card_filter_le ts b.partials.Awaits
    unfold Backward.remaining at hlength
    omega

end Growth

/-- **Differentiation comes to an end.**  Take any graph that calls lead to, with
    or without cycles, whatever its operators wait for and ask for.  Once a loss
    is accepted, seeding succeeds and the loop that follows ends: no op has its
    gradient ops grown twice, no tensor gets two sums, and each round but the last
    finds something new.  What differentiation returns is how that loop ends. -/
theorem Workspace.exhausts_of_reachable {w : Workspace} (h : w.Reachable)
    (options : GradientOptions) {type : TensorType} {p : OpId}
    (hloss : w.graph.lossProducer options.loss = .ok (type, p)) :
    ∃ b rounds result,
      Growth.seed options.loss type (w.graph.opsToward p)
        (Backward.start w.graph options.loss (w.graph.opsToward p)) = .ok () b ∧
      Growth.Exhausts w.graph options p b rounds result ∧
      Graph.differentiate options w.graph = match result with
        | .ok _ b' => .ok (b'.report options) b'.graph
        | .error e b' => .error e b'.graph := by
  have hg := h.sound.wellWired
  obtain ⟨x, hx⟩ := hg.producer_exists (lossProducer_accepts hloss).1
  have hp : (w.graph.op? p).isSome := by simp [hx]
  have hops : ∀ op ∈ w.graph.opsToward p, (w.graph.op? op).isSome := fun op hop =>
    hg.opsToward_exist hp hop
  obtain ⟨b, hseed⟩ := Growth.exists_seed hg hloss hops
  obtain ⟨horderly, -⟩ := Backward.Orderly.seed hg hops hseed
  -- all ops toward the loss and all tensors that they read
  let reads := (Backward.start w.graph options.loss (w.graph.opsToward p)).partials.expected
  have hos : ∀ op ∈ w.graph.opsToward p, op ∈ (w.graph.opsToward p).toFinset := fun op hop =>
    List.mem_toFinset.2 hop
  have hts : ∀ t, w.graph.ReadBy (w.graph.opsToward p) t → t ∈ reads.keys.toFinset :=
    fun t ht => List.mem_toFinset.2 (Backward.mem_expected w.graph options.loss _ ht)
  obtain ⟨rounds, result, hloop⟩ := Growth.exists_loop options hg hops hos hts horderly
  have hexhausts := hloop.exhausts hg hp horderly
  have hlength := hexhausts.length_le (w.graph.opsToward p).toFinset reads.keys.toFinset
    (fun op hop => hos op ((hg.mem_opsToward hp).2 hop))
    (fun op i t hop hin => hts t ⟨op, (hg.mem_opsToward hp).2 hop, i, hin⟩)
  -- so the number of rounds that the definition allows is never used up
  have henough : rounds.length ≤ (w.graph.opsToward p).length + reads.size + 1 := by
    have hopsle := (w.graph.opsToward p).toFinset_card_le
    have hreadsle := reads.keys.toFinset_card_le
    rw [Std.ExtTreeMap.length_keys] at hreadsle
    omega
  refine ⟨b, rounds, result, hseed, hexhausts, ?_⟩
  unfold Graph.differentiate
  simp only [hloss, bind, EStateM.bind, hseed]
  rewrite [hloop.propagate_eq henough]
  cases result <;> rfl

/-- A sum and an activation that feed each other, a product of what comes out with
    a weight, and the sum of its elements. -/
def Workspace.feedback : Workspace :=
  let calls : List Call := [
    .addVar "w" ⟨.f32, [2]⟩ (Payload.zeros 8),
    .addInput "x" ⟨.f32, [2]⟩,
    .createOp Builtin.add.operator {},
    .connectInput 0 0 "x",
    .connectInput 0 1 "x",
    .createOutput 0 0 "a",
    .settle 0,
    .createOp Builtin.relu.operator {},
    .connectInput 1 0 "a",
    .createOutput 1 0 "b",
    .settle 1,
    .createOp Builtin.mul.operator {},
    .connectInput 2 0 "b",
    .connectInput 2 1 "w",
    .createOutput 2 0 "m",
    .settle 2,
    .createOp Builtin.reduceSum.operator {},
    .connectInput 3 0 "m",
    .createOutput 3 0 "loss",
    .settle 3,
    .connectInput 0 1 "b"]
  calls.foldl (fun w c => c.run w) {}

/-- The gradients along the cycle wait for each other.  The loop ends all the
    same, and the weight has got its gradient. -/
theorem Workspace.feedback_exhausts : feedback.graph.Feeds 0 1 ∧ feedback.graph.Feeds 1 0 ∧
    ∃ b rounds b', Growth.Exhausts feedback.graph { loss := "loss" } 3 b rounds (.ok () b') ∧
      b'.gradients.keys = ["w"] := by
  have hcycle : 0 ∈ feedback.graph.feeders 1 ∧ 1 ∈ feedback.graph.feeders 0 := by decide +kernel
  refine ⟨mem_feeders.1 hcycle.1, mem_feeders.1 hcycle.2, ?_⟩
  have haccepted : (feedback.graph.lossProducer "loss").toOption.map Prod.snd = some 3 := by
    decide +kernel
  obtain ⟨⟨type, p⟩, hloss, rfl⟩ := Option.map_eq_some_iff.1 haccepted
  obtain ⟨b, rounds, result, -, hexhausts, hdiff⟩ :=
    exhausts_of_reachable (Reachable.run (.start "") _) { loss := "loss" } (toOption_eq_some.1 hloss)
  have hvalue : (match Graph.differentiate { loss := "loss" } feedback.graph with
      | .ok report _ => some report.gradients.keys
      | .error _ _ => none) = some ["w"] := by
    decide +kernel
  -- what differentiation returns is how the loop ends
  cases result with
  | error e b' =>
    have hfails : Graph.differentiate { loss := "loss" } feedback.graph = .error e b'.graph := hdiff
    rw [hfails] at hvalue
    cases hvalue
  | ok _ b' =>
    have hends : Graph.differentiate { loss := "loss" } feedback.graph
        = .ok (b'.report { loss := "loss" }) b'.graph := hdiff
    rw [hends] at hvalue
    exact ⟨b, rounds, b', hexhausts, Option.some.inj hvalue⟩

end Dataflow
