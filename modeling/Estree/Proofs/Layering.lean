import Estree.Proofs.Kinds
import Estree.Registry
import Mathlib.Data.List.Dedup
import Mathlib.Data.Set.Card
import Mathlib.Logic.Function.Basic

/-!
# Layered registries, and which write wins

Registries are kept under names and edited in steps: a kind is bound, several kinds are bound to one
procedure, or one registry is laid over another and the outcome is kept under a name. Every name has
a history, the list of the writes that made its registry. To lay an extension over a base is to
write on: the history of the extension comes after that of the base.

    run steps start n = replay (history steps start n)

What a registry binds is then what its history wrote last (`Registry.run_lastWriteWins`).

Main results:

* `Registry.get?_replay_eq_some_iff`: the last write of a history wins.
* `Registry.layer_replay`: a layer writes on.
* `Registry.run_eq_replay`: each name holds what its history makes.
* `Registry.run_lastWriteWins`: all this for any steps from any start.
-/

namespace Estree

/-! ## §1. What a registry has. -/

namespace Registry

variable {r base extension : Registry} {j k : Kind} {p q : Procedure}

/-- A registry is what it has for each kind. -/
theorem ext_get? {r s : Registry} (h : ∀ k, r.get? k = s.get? k) : r = s := by
  cases r
  cases s
  exact congrArg mk (funext h)

/-- A registry has a kind when it has a procedure for it. -/
theorem contains_iff : r.contains k = true ↔ ∃ p, r.get? k = some p := Option.isSome_iff_exists

/-- The kinds of a registry are those that it has. -/
theorem mem_kinds_iff : k ∈ r.kinds ↔ r.contains k = true := by
  simp [kinds, k.mem_all]

/-- They are listed in order. -/
theorem increasing_kinds (r : Registry) : r.kinds.Pairwise fun j k => j.index < k.index :=
  Kind.increasing_all.filter _

/-- None is listed twice. -/
theorem nodup_kinds (r : Registry) : r.kinds.Nodup :=
  r.increasing_kinds.imp fun h e => absurd (congrArg Kind.index e) (Nat.ne_of_lt h)

/-- The size counts the kinds of any list that has exactly the bound ones, each once. -/
theorem size_eq_length {ks : List Kind} (hks : ks.Nodup) (h : ∀ k, k ∈ ks ↔ r.contains k = true) :
    r.size = ks.length := by
  have hperm : r.kinds.Perm ks :=
    (List.perm_ext_iff_of_nodup r.nodup_kinds hks).mpr fun k => mem_kinds_iff.trans (h k).symm
  exact hperm.length_eq

/-- The size of a registry is the number of its kinds. -/
theorem size_eq_ncard (r : Registry) : r.size = {k | r.contains k = true}.ncard := by
  have hset : {k | r.contains k = true} = (r.kinds.toFinset : Set Kind) := by
    ext k
    simp [mem_kinds_iff]
  rw [hset, Set.ncard_coe_finset, List.toFinset_card_of_nodup r.nodup_kinds, size]

/-! ## §2. Writes. -/

/-- A kind and the procedure that is bound to it. -/
abbrev Write := Kind × Procedure

/-- Binds kind after kind. -/
def writeAll (r : Registry) (ws : List Write) : Registry :=
  ws.foldl (fun r w => r.register w.1 w.2) r

/-- The registry that a history makes. -/
def replay (ws : List Write) : Registry := empty.writeAll ws

/-- The last write of the kind is one of the procedure. -/
def WrittenLast (ws : List Write) (k : Kind) (p : Procedure) : Prop :=
  ∃ earlier later, ws = earlier ++ (k, p) :: later ∧ ∀ w ∈ later, w.1 ≠ k

/-- The writes are the bindings of the registry, each once, in whatever order. -/
structure Lists (r : Registry) (ws : List Write) : Prop where
  nodup : (ws.map Prod.fst).Nodup
  mem_iff : ∀ k p, (k, p) ∈ ws ↔ r.get? k = some p

variable {ws : List Write}

/-- Writes are made one after the other. -/
theorem writeAll_append (us ws : List Write) :
    r.writeAll (us ++ ws) = (r.writeAll us).writeAll ws :=
  List.foldl_append

/-- The last write is made last. -/
theorem replay_concat (ws : List Write) (w : Write) :
    replay (ws ++ [w]) = (replay ws).register w.1 w.2 :=
  writeAll_append ws [w]

/-- Registering for several kinds is several writes. -/
theorem registerAll_eq_writeAll (ks : List Kind) :
    r.registerAll ks p = r.writeAll (ks.map (·, p)) := by
  rw [writeAll, List.foldl_map, registerAll]

theorem not_writtenLast_nil : ¬WrittenLast [] k p := by
  rintro ⟨earlier, later, h, -⟩
  simp at h

/-- One more write hides the earlier ones of its kind and no other. -/
theorem writtenLast_concat_iff :
    WrittenLast (ws ++ [(j, q)]) k p ↔ if k = j then q = p else WrittenLast ws k p := by
  constructor
  · rintro ⟨earlier, later, h, hlater⟩
    -- the write at the end is the one that is meant, or it comes later and is of another kind
    rcases List.eq_nil_or_concat' later with rfl | ⟨later, w, rfl⟩
    · obtain ⟨-, hw⟩ := List.append_inj' h rfl
      cases hw
      rw [if_pos rfl]
    · rw [← List.cons_append, ← List.append_assoc] at h
      obtain ⟨rfl, hw⟩ := List.append_inj' h rfl
      cases hw
      rw [if_neg fun e => hlater (j, q) (by simp) e.symm]
      exact ⟨earlier, later, rfl, fun w hw => hlater w (List.mem_append_left _ hw)⟩
  · split
    next hk =>
      rintro rfl
      exact ⟨ws, [], by rw [hk], List.forall_mem_nil _⟩
    next hk =>
      rintro ⟨earlier, later, rfl, hlater⟩
      refine ⟨earlier, later ++ [(j, q)], by simp, ?_⟩
      simp only [List.forall_mem_append, List.forall_mem_singleton]
      exact ⟨hlater, fun e => hk e.symm⟩

/-- A kind that was written was written last by something. -/
theorem exists_writtenLast_iff : (∃ p, WrittenLast ws k p) ↔ k ∈ ws.map Prod.fst := by
  induction ws using List.reverseRecOn with
  | nil => simp [not_writtenLast_nil]
  | append_singleton ws w ih =>
    obtain ⟨j, q⟩ := w
    simp only [writtenLast_concat_iff]
    by_cases hk : k = j
    · simp [hk]
    · simpa [hk] using ih

/-- **The last write wins.** The induction takes the writes from the last one. -/
theorem get?_replay_eq_some_iff : (replay ws).get? k = some p ↔ WrittenLast ws k p := by
  induction ws using List.reverseRecOn with
  | nil => simp [replay, writeAll, empty, not_writtenLast_nil]
  | append_singleton ws w ih =>
    rw [replay_concat, writtenLast_concat_iff, ← ih, register]
    by_cases hk : k = w.1
    · simp [hk]
    · simp [hk]

/-- A registry has the kinds that were written. -/
theorem contains_replay_iff : (replay ws).contains k = true ↔ k ∈ ws.map Prod.fst := by
  simp only [contains_iff, get?_replay_eq_some_iff, exists_writtenLast_iff]

/-- Its size is the number of different kinds that were written. -/
theorem size_replay (ws : List Write) : (replay ws).size = (ws.map Prod.fst).dedup.length :=
  size_eq_length (List.nodup_dedup _) fun k => by rw [List.mem_dedup, contains_replay_iff]

/-! ## §3. Layers. -/

/-- An empty layer changes nothing. -/
theorem layer_empty (r : Registry) : r.layer empty = r := rfl

/-- A write on top of a layer is a write on the result. -/
theorem layer_register :
    base.layer (extension.register k p) = (base.layer extension).register k p := by
  refine ext_get? fun j => ?_
  simp only [layer, register]
  split <;> rfl

/-- **To lay a history over a registry is to write on.** -/
theorem layer_replay (ws : List Write) : base.layer (replay ws) = base.writeAll ws := by
  induction ws using List.reverseRecOn with
  | nil => exact base.layer_empty
  | append_singleton ws w ih =>
    rw [replay_concat, layer_register, ih, writeAll_append]
    rfl

/-- **A layer is its writes**, made after those of the base. -/
theorem replay_append (us ws : List Write) : replay (us ++ ws) = (replay us).layer (replay ws) := by
  rw [layer_replay, replay, replay, writeAll_append]

/-- Layers may be put together in any grouping. -/
theorem layer_assoc (a b c : Registry) : (a.layer b).layer c = a.layer (b.layer c) :=
  ext_get? fun _ => Option.or_assoc.symm

/-- The extension counts where it has a procedure, the base elsewhere. -/
theorem get?_layer_eq_ite (base extension : Registry) (k : Kind) : (base.layer extension).get? k =
    if extension.contains k then extension.get? k else base.get? k := by
  split
  next hk =>
    obtain ⟨p, hp⟩ := contains_iff.mp hk
    simp [layer, hp]
  next hk =>
    have hnone : extension.get? k = none := by simpa [contains] using hk
    simp [layer, hnone]

/-- In a list of bindings a kind is written once, so first and last are the same. -/
theorem Lists.writtenLast_iff (h : r.Lists ws) : WrittenLast ws k p ↔ r.get? k = some p := by
  rw [← h.mem_iff]
  constructor
  · rintro ⟨earlier, later, rfl, -⟩
    simp
  · intro hmem
    obtain ⟨earlier, later, rfl⟩ := List.append_of_mem hmem
    refine ⟨earlier, later, rfl, fun w hw e => ?_⟩
    have hnodup := h.nodup
    rw [List.map_append, List.map_cons, List.nodup_append] at hnodup
    exact (List.nodup_cons.mp hnodup.2.1).1 (List.mem_map.mpr ⟨w, hw, e⟩)

/-- A registry is what its list of writes makes. -/
theorem Lists.replay_eq (h : r.Lists ws) : replay ws = r :=
  ext_get? fun k => Option.ext fun p => by rw [get?_replay_eq_some_iff, h.writtenLast_iff]

/-- The bindings in the order of their kinds. -/
def bindings (r : Registry) : List Write := r.kinds.filterMap fun k => (r.get? k).map (k, ·)

/-- The bindings of a registry list it. -/
theorem lists_bindings (r : Registry) : r.Lists r.bindings where
  nodup := by
    have hkinds : r.bindings.map Prod.fst = r.kinds.filter r.contains := by
      rw [bindings, List.map_filterMap, ← List.filterMap_eq_filter]
      refine List.filterMap_congr fun k _ => ?_
      cases hk : r.get? k <;> simp [contains, hk, Option.guard]
    rw [hkinds]
    exact r.nodup_kinds.filter _
  mem_iff k p := by
    simp only [bindings, List.mem_filterMap, Option.map_eq_some_iff, mem_kinds_iff, contains_iff]
    constructor
    · rintro ⟨j, -, q, hq, heq⟩
      cases heq
      exact hq
    · intro hp
      exact ⟨k, ⟨p, hp⟩, p, hp, rfl⟩

/-! ## §4. Steps over named registries. -/

/-- A step that edits the registry of a name, or keeps a layered registry under a name. -/
inductive Step (ν : Type) where
  | register (name : ν) (k : Kind) (p : Procedure)
  | registerAll (name : ν) (ks : List Kind) (p : Procedure)
  | layer (base extension target : ν)

namespace Step

variable {ν : Type}

/-- The name whose registry the step changes. -/
def target : Step ν → ν
  | register name _ _ => name
  | registerAll name _ _ => name
  | layer _ _ target => target

/-- The registry that the step makes. -/
def outcome (held : ν → Registry) : Step ν → Registry
  | register name k p => (held name).register k p
  | registerAll name ks p => (held name).registerAll ks p
  | layer base extension _ => (held base).layer (held extension)

/-- The history of the registry that the step makes. -/
def writes (past : ν → List Write) : Step ν → List Write
  | register name k p => past name ++ [(k, p)]
  | registerAll name ks p => past name ++ ks.map (·, p)
  | layer base extension _ => past base ++ past extension

/-- A step makes of registries what it makes of their histories. -/
theorem outcome_eq_replay {held : ν → Registry} {past : ν → List Write}
    (h : ∀ n, held n = replay (past n)) (step : Step ν) :
    step.outcome held = replay (step.writes past) := by
  cases step with
  | register name k p =>
    rw [outcome, writes, h, replay_concat]
  | registerAll name ks p =>
    rw [outcome, writes, h, replay, replay, writeAll_append, registerAll_eq_writeAll]
  | layer base extension target => rw [outcome, writes, h, h, replay_append]

end Step

variable {ν : Type} [DecidableEq ν]

/-- The registries after the steps. -/
def run (steps : List (Step ν)) (start : ν → Registry) : ν → Registry :=
  steps.foldl (fun held step => Function.update held step.target (step.outcome held)) start

/-- The histories after the steps. What is bound at the start counts as written then. -/
def history (steps : List (Step ν)) (start : ν → Registry) : ν → List Write :=
  steps.foldl (fun past step => Function.update past step.target (step.writes past))
    fun n => (start n).bindings

/-- The last step is taken last. -/
theorem run_concat (steps : List (Step ν)) (step : Step ν) (start : ν → Registry) :
    run (steps ++ [step]) start
      = Function.update (run steps start) step.target (step.outcome (run steps start)) := by
  simp [run]

/-- The last step writes last in the histories. -/
theorem history_concat (steps : List (Step ν)) (step : Step ν) (start : ν → Registry) :
    history (steps ++ [step]) start
      = Function.update (history steps start) step.target (step.writes (history steps start)) := by
  simp [history]

/-- **A registry is its history, replayed.** Each step writes on in the history of its target, and
all other names keep both. -/
theorem run_eq_replay (steps : List (Step ν)) (start : ν → Registry) (n : ν) :
    run steps start n = replay (history steps start n) := by
  induction steps using List.reverseRecOn generalizing n with
  | nil => exact (start n).lists_bindings.replay_eq.symm
  | append_singleton steps step ih =>
    rw [run_concat, history_concat]
    by_cases hn : n = step.target
    · subst hn
      rw [Function.update_self, Function.update_self]
      exact step.outcome_eq_replay ih
    · rw [Function.update_of_ne hn, Function.update_of_ne hn, ih]

/-- Steps with other targets leave a registry as it is. -/
theorem run_append_of_target_ne (steps : List (Step ν)) {more : List (Step ν)} {n : ν}
    (h : ∀ step ∈ more, step.target ≠ n) (start : ν → Registry) :
    run (steps ++ more) start n = run steps start n := by
  induction more using List.reverseRecOn with
  | nil => rw [List.append_nil]
  | append_singleton more step ih =>
    obtain ⟨hmore, hstep⟩ := List.forall_mem_append.mp h
    rw [← List.append_assoc, run_concat,
      Function.update_of_ne (hstep step List.mem_cons_self).symm, ih hmore]

/-- A layering step stores the layer of what the names held. -/
theorem run_layer (steps : List (Step ν)) (start : ν → Registry) (b e t : ν) :
    run (steps ++ [.layer b e t]) start t = (run steps start b).layer (run steps start e) := by
  rw [run_concat]
  exact Function.update_self ..

/-- **Registries are maps in which the last write wins**, after any steps from any start. The bound
kinds are listed in their order, and counted once each. -/
theorem run_lastWriteWins (steps : List (Step ν)) (start : ν → Registry) :
    let held := run steps start
    let past := history steps start
    -- what a registry binds is what was written last
    (∀ n k p, (held n).get? k = some p ↔ WrittenLast (past n) k p) ∧
    -- the extension comes first, in whatever order its bindings are copied
    (∀ b e t k, (run (steps ++ [.layer b e t]) start t).get? k =
      if (held e).contains k then (held e).get? k else (held b).get? k) ∧
    (∀ b e t ws, (held e).Lists ws →
      run (steps ++ [.layer b e t]) start t = (held b).writeAll ws) ∧
    -- a step changes the registry of its target only, so base and extension stay as they are
    (∀ n more, (∀ step ∈ more, step.target ≠ n) → run (steps ++ more) start n = held n) ∧
    (∀ a b c : Registry, (a.layer b).layer c = a.layer (b.layer c)) ∧
    -- the bound kinds are told, counted and listed
    ∀ n, (∀ k, (held n).contains k = true ↔ ∃ p, (held n).get? k = some p) ∧
      (held n).size = {k | (held n).contains k = true}.ncard ∧
      (held n).size = ((past n).map Prod.fst).dedup.length ∧
      (held n).kinds.Pairwise (fun j k => j.index < k.index) ∧
      ∀ k, k ∈ (held n).kinds ↔ (held n).contains k = true := by
  intro held past
  have hreplay : ∀ n, held n = replay (past n) := run_eq_replay steps start
  refine ⟨fun n k p => ?_, fun b e t k => ?_, fun b e t ws hws => ?_, fun n more hmore => ?_,
    layer_assoc, fun n => ⟨fun k => contains_iff, size_eq_ncard _, ?_, increasing_kinds _,
      fun k => mem_kinds_iff⟩⟩
  · rw [hreplay, get?_replay_eq_some_iff]
  · rw [run_layer, get?_layer_eq_ite]
  · rw [run_layer, ← layer_replay, hws.replay_eq]
  · exact run_append_of_target_ne steps hmore start
  · rw [hreplay, size_replay]

/-- A kind that is bound twice on each side counts once, and what is bound in the base later on does
not reach the copy. -/
theorem run_lastWriteWins_copy :
    let start : String → Registry := fun _ => empty
    let steps : List (Step String) := [
      .registerAll "base" [.super, .thisExpression, .super] .thisExpression,
      .registerAll "base" [] .jump,
      .register "extension" .super .jump,
      .register "extension" .super .superExpression]
    let copying := steps ++ [.layer "base" "extension" "copy"]
    run copying start "copy" = (run steps start "base").writeAll [(.super, .superExpression)] ∧
      (run copying start "copy").get? .super = some .superExpression ∧
      (run copying start "copy").size = 2 ∧
      run (copying ++ [.register "base" .super .jump]) start "copy" = run copying start "copy" := by
  intro start steps copying
  have hlists : (run steps start "extension").Lists [(.super, .superExpression)] := by
    -- the first binding of the kind is hidden by the second
    have hextension : run steps start "extension"
        = (empty.register .super .jump).register .super .superExpression := rfl
    refine ⟨by decide, fun k p => ?_⟩
    rw [hextension]
    by_cases hk : k = .super
    · simp [hk, register, eq_comm]
    · simp [hk, register, empty]
  have hcopied := run_lastWriteWins copying start
  refine ⟨(run_lastWriteWins steps start).2.2.1 "base" "extension" "copy" _ hlists,
    (hcopied.1 "copy" .super .superExpression).mpr ⟨[(.super, .thisExpression),
      (.thisExpression, .thisExpression), (.super, .thisExpression), (.super, .jump)], [], rfl,
      List.forall_mem_nil _⟩, ?_, hcopied.2.2.2.1 "copy" _ (by decide)⟩
  obtain ⟨-, -, hsize, -⟩ := hcopied.2.2.2.2.2 "copy"
  exact hsize.trans (by decide +kernel)

end Registry

end Estree
