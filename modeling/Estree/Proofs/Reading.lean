import Estree.Proofs.Expression.Grammar

/-!
# Reading tokens step by step

A reader of tokens is a machine. Its state is a plan, which says what to do with the tokens that
come next, and these tokens; a step is a function of the state, so that a run has one end
(`Reaches.unique`). Whoever shows, for a grammar, that the tokens of each derivation lead to its
tree, has shown that no tokens have two trees:

    Reaches r (.part a .done, ts) (.done n, [])

A plan is told what to go on with, so a production of a grammar is read by one line: the parts of
the production in their order. Left recursion is going on after a tree (`Plan.goOn`), and a list is
read as long as its separator comes (`reaches_parts`).

Main results:

  * `Reaches.unique`: a run has one end;
  * `reaches_parts`, `reaches_listed`: a list is read by reading its items;
  * `readsPart_of_run`, `ReadsPart.unique`: a tree is read as it stands where nothing goes on with
    it,
    and its tokens have no other tree.
-/

namespace Estree.Reading

open Expression (Item separated closings trees)

/-- A token is its text. -/
abbrev Token := String

/-! ## §1. Plans. -/

/-- What to do with the tokens that come next; the trees to be read are of sorts `ι`. -/
inductive Plan (ι : Type) where
  /-- A tree has been read. -/
  | done (n : Node)
  /-- There is nothing that the tokens can be. -/
  | fail
  /-- Take a token, which decides about what comes next. -/
  | take (next : Token → Plan ι)
  /-- Let the tokens decide without taking any. -/
  | look (next : List Token → Plan ι)
  /-- Read a tree of a sort. -/
  | part (i : ι) (next : Node → Plan ι)
  /-- Go on after the beginning `n` of a tree of a sort. -/
  | goOn (i : ι) (n : Node) (next : Node → Plan ι)
  /-- After the trees `ns` read one more of their sort, and others if the tokens say so: they are
  told so after each tree, and their first one stands between two trees. -/
  | parts (i : ι) (goesOn : List Token → Bool) (ns : List Node) (next : List Node → Plan ι)

/-- Take the token that must come. -/
def Plan.token {ι : Type} (t : Token) (next : Plan ι) : Plan ι :=
  .take fun u => if u = t then next else .fail

/-- Take the token if it comes next, which decides about what comes then. -/
def Plan.ifNext {ι : Type} (t : Token) (taken missing : Plan ι) : Plan ι :=
  .look fun ts => if ts.head? = some t then .token t taken else missing

/-- After an item of a list: another one or the end. -/
def Plan.afterItem {ι : Type} (i : ι) (goesOn : List Token → Bool) (ns : List Node)
    (next : List Node → Plan ι) (ts : List Token) : Plan ι :=
  if goesOn ts then .take fun _ => .parts i goesOn ns next else next ns

/-- The plans for a grammar. -/
structure Reader (ι : Type) where
  /-- How a tree of a sort begins. -/
  start : ι → (Node → Plan ι) → Plan ι
  /-- How the beginning of a tree is continued when a token comes, if it is. -/
  more : ι → Node → Token → Option ((Node → Plan ι) → Plan ι)

/-- A plan and the tokens that come next. -/
abbrev State (ι : Type) := Plan ι × List Token

/-! ## §2. Steps and runs. -/

variable {ι : Type} {r : Reader ι}

/-- One step of a reader, if there is one. -/
def step (r : Reader ι) : State ι → Option (State ι)
  | (.done _, _) | (.fail, _) | (.take _, []) => none
  | (.take next, t :: ts) => some (next t, ts)
  | (.look next, ts) => some (next ts, ts)
  | (.part i next, ts) => some (r.start i fun n => .goOn i n next, ts)
  | (.goOn i n next, ts) =>
    match ts.head?.bind (r.more i n) with
    | none => some (next n, ts)
    | some continued => some (continued fun m => .goOn i m next, ts.tail)
  | (.parts i goesOn ns next, ts) =>
    some (.part i fun n => .look (Plan.afterItem i goesOn (ns ++ [n]) next), ts)

/-- The run of a reader comes from a state to another. -/
inductive Reaches (r : Reader ι) : State ι → State ι → Prop where
  | refl (s : State ι) : Reaches r s s
  | step {s t u : State ι} : step r s = some t → Reaches r t u → Reaches r s u

namespace Reaches

variable {s t u : State ι} {ts us : List Token} {n m : Node} {i : ι}

/-- Two runs one after the other. -/
theorem trans (h : Reaches r s t) (h' : Reaches r t u) : Reaches r s u := by
  induction h with
  | refl => exact h'
  | step hs _ ih => exact .step hs (ih h')

/-- **A run has one end**: there is no step from a tree, and one at most from any other state. -/
theorem unique (h : Reaches r s (.done n, ts)) (h' : Reaches r s (.done m, us)) : n = m := by
  generalize ht : (Plan.done n, ts) = t at h
  induction h with
  | refl s =>
    subst ht
    cases h' with
    | refl => rfl
    | step hs => cases hs
  | step hs _ ih =>
    cases h' with
    | refl => cases hs
    | step hs' h' =>
      obtain rfl := Option.some.inj (hs.symm.trans hs')
      exact ih h' ht

/-! What the plans come to. -/

variable {next : Node → Plan ι} {plan : Plan ι} {x : Token}

/-- A token is taken. -/
theorem take {choose : Token → Plan ι} (h : Reaches r (choose x, ts) u) :
    Reaches r (.take choose, x :: ts) u :=
  .step rfl h

/-- The tokens decide. -/
theorem look {choose : List Token → Plan ι} (h : Reaches r (choose ts, ts) u) :
    Reaches r (.look choose, ts) u :=
  .step rfl h

/-- The token that must come is taken. -/
theorem token (h : Reaches r (plan, ts) u) : Reaches r (.token x plan, x :: ts) u :=
  take (by rwa [if_pos rfl])

/-- The token that may come is taken if it does. -/
theorem ifNext {missing : Plan ι} (h : Reaches r (plan, ts) u) :
    Reaches r (.ifNext x plan missing, x :: ts) u := by
  refine look ?_
  rw [if_pos List.head?_cons]
  exact token h

/-- It is not taken if it does not. -/
theorem ifNext_of_ne {taken : Plan ι} (hx : ts.head? ≠ some x) (h : Reaches r (plan, ts) u) :
    Reaches r (.ifNext x taken plan, ts) u := by
  refine look ?_
  rwa [if_neg hx]

/-- A tree of a sort begins as the reader has it. -/
theorem part (h : Reaches r (r.start i fun n => .goOn i n next, ts) u) :
    Reaches r (.part i next, ts) u :=
  .step rfl h

/-- A tree ends where nothing continues it. -/
theorem stop (hm : ∀ x ∈ ts.head?, r.more i n x = none) (h : Reaches r (next n, ts) u) :
    Reaches r (.goOn i n next, ts) u := by
  refine .step ?_ h
  have hnone : ts.head?.bind (r.more i n) = none := by
    rw [Option.bind_eq_none_iff]
    exact hm
  simp only [Reading.step, hnone]

/-- A tree goes on with a token that continues it. -/
theorem onward {c : (Node → Plan ι) → Plan ι} (hm : r.more i n x = some c)
    (h : Reaches r (c fun m => .goOn i m next, ts) u) :
    Reaches r (.goOn i n next, x :: ts) u := by
  refine .step ?_ h
  simp only [Reading.step, List.head?_cons, Option.bind_some, hm, List.tail_cons]

end Reaches

/-! ## §3. Lists. -/

/-- The tokens are read as the tree of the sort, whatever comes next that meets a condition. -/
def ReadsPart (r : Reader ι) (i : ι) (follows : List Token → Prop) (item : Item) : Prop :=
  ∀ ⦃next rest⦄, follows rest → Reaches r (.part i next, item.1 ++ rest) (next item.2, rest)

/-- A list is read by reading its items. -/
theorem reaches_parts {i : ι} {follows : List Token → Prop} {goesOn : List Token → Bool}
    {sep : Token} {rest : List Token} (hsep : ∀ us, follows (sep :: us)) (hrest : follows rest)
    (hstop : goesOn rest = false) {item : Item} {items : List Item}
    (hitems : ∀ j ∈ item :: items, ReadsPart r i follows j)
    (hon : ∀ j ∈ items, ∀ us, goesOn (sep :: (j.1 ++ us)) = true) {ns : List Node}
    {next : List Node → Plan ι} :
    Reaches r (.parts i goesOn ns next, separated sep (item :: items) ++ rest)
      (next (ns ++ trees (item :: items)), rest) := by
  induction items generalizing item ns with
  | nil =>
    refine .step rfl ((hitems item List.mem_cons_self hrest).trans (.look ?_))
    rw [Plan.afterItem, if_neg (by simp [hstop])]
    exact .refl _
  | cons j items ih =>
    have hsplit : separated sep (item :: j :: items) ++ rest =
        item.1 ++ sep :: (separated sep (j :: items) ++ rest) := by
      simp [separated]
    rw [hsplit]
    refine .step rfl ((hitems item List.mem_cons_self (hsep _)).trans (.look ?_))
    -- the separator says that another item comes
    have hgo : goesOn (sep :: (separated sep (j :: items) ++ rest)) = true := by
      cases items with
      | nil => exact hon j List.mem_cons_self rest
      | cons k items =>
        have h := hon j List.mem_cons_self (sep :: (separated sep (k :: items) ++ rest))
        simpa [separated] using h
    rw [Plan.afterItem, if_pos hgo]
    have hrun :
        Reaches r (.parts i goesOn (ns ++ [item.2]) next, separated sep (j :: items) ++ rest)
        (next (ns ++ [item.2] ++ trees (j :: items)), rest) :=
      ih (fun k hk => hitems k (List.mem_cons_of_mem _ hk))
        fun k hk => hon k (List.mem_cons_of_mem _ hk)
    rw [List.append_assoc] at hrun
    exact .take hrun

/-- A list of trees with commas between them, up to the token that closes it. A comma may stand
before that token. -/
def Plan.listed {ι : Type} (i : ι) (close : Token) (next : List Node → Plan ι) : Plan ι :=
  .ifNext close (next [])
    (.parts i (fun us => us.head? == some "," && us.tail.head? != some close) [] fun ns =>
      .ifNext "," (.token close (next ns)) (.token close (next ns)))

/-- A list with commas is read by reading its items, none of which begins like the end. -/
theorem reaches_listed {i : ι} {follows : List Token → Prop} {close : Token} (hne : close ≠ ",")
    (hcomma : ∀ us, follows ("," :: us)) (hclose : ∀ us, follows (close :: us)) {items : List Item}
    (hitems : ∀ j ∈ items, ReadsPart r i follows j)
    (hopen : ∀ j ∈ items, ∃ t more, j.1 = t :: more ∧ t ≠ close) {e : List Token}
    (he : e ∈ closings close items) {rest : List Token} {next : List Node → Plan ι} :
    Reaches r (.listed i close next, separated "," items ++ (e ++ rest))
      (next (trees items), rest) := by
  cases items with
  | nil =>
    obtain rfl : e = [close] := by simpa [closings] using he
    exact .ifNext (.refl _)
  | cons item items =>
    obtain ⟨t, more, ht, htc⟩ := hopen item List.mem_cons_self
    have hhead : (separated "," (item :: items) ++ (e ++ rest)).head? ≠ some close := by
      cases items <;> simp [separated, ht, htc]
    refine .ifNext_of_ne hhead ?_
    -- another item comes after a comma, but for the last one
    have hon : ∀ j ∈ items, ∀ us,
        (fun us : List Token => us.head? == some "," && us.tail.head? != some close)
          ("," :: (j.1 ++ us)) = true := by
      intro j hj us
      obtain ⟨t, more, ht, htc⟩ := hopen j (List.mem_cons_of_mem _ hj)
      simp [ht, htc]
    have hend : e = [close] ∨ e = [",", close] := by simpa [closings] using he
    rcases hend with rfl | rfl
    · refine (reaches_parts hcomma (hclose rest) (by simp [hne]) hitems hon).trans ?_
      exact .ifNext_of_ne (by simpa using hne) (.token (.refl _))
    · refine (reaches_parts hcomma (hcomma (close :: rest)) (by simp) hitems hon).trans ?_
      exact .ifNext (.token (.refl _))

/-! ## §4. Trees that nothing goes on with. -/

section Ends

variable {links ts us : List Token} {t : Token} {n m : Node} {i : ι} {follows : List Token → Prop}

/-- None of the tokens comes next that go on with a tree. -/
def Ends (links ts : List Token) : Prop := ∀ t ∈ ts.head?, t ∉ links

/-- Nothing goes on with a tree at the end. -/
theorem Ends.nil : Ends links [] := nofun

theorem Ends.cons (ht : t ∉ links) : Ends links (t :: ts) := by
  rintro _ ⟨⟩
  exact ht

/-- Where fewer tokens go on with a tree, it ends as well. -/
theorem Ends.mono {fewer : List Token} (h : Ends links ts) (hsub : fewer ⊆ links) : Ends fewer ts :=
  fun t ht hmem => h t ht (hsub hmem)

/-- Where a tree ends, no token comes that goes on with it. -/
theorem Ends.head?_ne (h : Ends links ts) (ht : t ∈ links) : ts.head? ≠ some t :=
  fun hts => h t hts ht

/-- A tree that the reader comes to is read as it stands where no link comes. -/
theorem readsPart_of_run
    (hrun : ∀ {next : Node → Plan ι} {rest : List Token}, Ends links rest →
      Reaches r (.part i next, ts ++ rest) (.goOn i n next, rest))
    (hmore : ∀ t, t ∉ links → r.more i n t = none) : ReadsPart r i (Ends links) (ts, n) :=
  fun _ _ hr => (hrun hr).trans (.stop (fun t ht => hmore t (hr t ht)) (.refl _))

/-- **Tokens that are read as a tree have no other one**, if they may stand at the end. -/
theorem ReadsPart.unique (hnil : follows []) (hn : ReadsPart r i follows (ts, n))
    (hm : ReadsPart r i follows (ts, m)) : n = m := by
  have hrun : ∀ {k : Node}, ReadsPart r i follows (ts, k) →
      Reaches r (.part i .done, ts ++ []) (.done k, []) := fun h => h hnil
  exact (hrun hn).unique (hrun hm)

end Ends

end Estree.Reading
