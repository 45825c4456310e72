import Mathlib.Data.Fintype.Card
import EngineKit.Lib.DepOrder

/-!
# The topological sort

The kernel orders its subsystems by a depth-first search over their dependencies: a node is
painted gray while its dependencies are visited and black when it goes behind them in the order,
and meeting a gray node again is a cycle. The tables are functions on the `n` nodes, so a
dependency is a node; `Registry::resolve_dependencies`, which builds the table, has no other to
give.

The search is recursive through a loop, over a state it shares (`Dfs`), and its model carries fuel
for the recursion. `Dfs.Inv` says what the three parts of the state say of each other;
`visit_spec` is what a visit leaves, whichever way it ends, and that the nodes still white are
fuel enough. `toposort_spec` is what follows for the sort.
-/

set_option autoImplicit false

namespace EngineKit
namespace Schedule

open Lib

structure SubscriberId where
  raw : UInt32
deriving DecidableEq

inductive BusError where
  | outboxFull
  | inboxFull (target : SubscriberId)
  | unknownRecipient (target : SubscriberId)
  | allocationFailed
  | invalidTopology
deriving DecidableEq

inductive KernelError where
  | unknownDependency (subsystem dependency : String)
  | dependencyCycle (path : List String)
  | duplicateName (name : String)
  | bus (error : BusError)
  | notInitialized
deriving DecidableEq

/-- `WHITE`, `GRAY`, `BLACK`: unvisited, on the current path, fully processed. -/
inductive Color where
  | white
  | gray
  | black
deriving DecidableEq

variable {n : Nat}

/-- What `visit` mutates: the colours, the current path (its top last) and the order so far. -/
structure Dfs (n : Nat) where
  state : Fin n → Color
  stack : List (Fin n)
  order : List (Fin n)

def Dfs.start : Dfs n := ⟨fun _ => .white, [], []⟩

/-- `state[node] = GRAY; stack.push(node)`. -/
def Dfs.enter (st : Dfs n) (node : Fin n) : Dfs n :=
  { st with state := Function.update st.state node .gray, stack := st.stack ++ [node] }

/-- `state[node] = BLACK; stack.pop(); order.push(node)`. -/
def Dfs.leave (st : Dfs n) (node : Fin n) : Dfs n :=
  { state := Function.update st.state node .black
    stack := st.stack.dropLast
    order := st.order ++ [node] }

/-- The nodes from `dep` to the top of the path, and `dep` again. -/
def Dfs.cyclePath (st : Dfs n) (dep : Fin n) : List (Fin n) :=
  st.stack.dropWhile (fun node => node != dep) ++ [dep]

section Search

variable (deps : Fin n → List (Fin n)) (names : Fin n → String)

/-- The loop of `visit` over a node's dependencies. An error leaves no state: its callers only
    pass it on. -/
def visitDeps (visit : Fin n → Dfs n → Option (Except KernelError (Dfs n))) :
    List (Fin n) → Dfs n → Option (Except KernelError (Dfs n))
  | [], st => some (.ok st)
  | dep :: ds, st =>
    match st.state dep with
    | .white =>
      match visit dep st with
      | some (.ok st) => visitDeps visit ds st
      | stop => stop
    | .gray => some (.error (.dependencyCycle ((st.cyclePath dep).map names)))
    | .black => visitDeps visit ds st

/-- `none` is out of fuel. -/
def visit : Nat → Fin n → Dfs n → Option (Except KernelError (Dfs n))
  | 0, _, _ => none
  | fuel + 1, node, st =>
    match visitDeps names (visit fuel) (deps node) (st.enter node) with
    | some (.ok st) => some (.ok (st.leave node))
    | stop => stop

/-- The loop of `toposort` over its starting points. -/
def visitAll : List (Fin n) → Dfs n → Option (Except KernelError (Dfs n))
  | [], st => some (.ok st)
  | start :: starts, st =>
    if st.state start = .white then
      match visit deps names n start st with
      | some (.ok st) => visitAll starts st
      | stop => stop
    else visitAll starts st

/-- Deps-first: a node is pushed once everything it depends on has been. -/
def toposort : Option (Except KernelError (List (Fin n))) :=
  (visitAll deps names (List.finRange n) Dfs.start).map fun result =>
    result.map fun st => st.order

end Search

/-! ## The state of the search -/

/-- The colours are the path and the order, and the order is dependencies first. -/
structure Dfs.Inv (deps : Fin n → List (Fin n)) (st : Dfs n) : Prop where
  gray (v : Fin n) : st.state v = .gray ↔ v ∈ st.stack
  black (v : Fin n) : st.state v = .black ↔ v ∈ st.order
  nodup : st.order.Nodup
  first : DepsFirst deps st.order

theorem Dfs.Inv.start {deps : Fin n → List (Fin n)} : (start : Dfs n).Inv deps where
  gray v := by simp [Dfs.start]
  black v := by simp [Dfs.start]
  nodup := List.nodup_nil
  first := DepsFirst.nil

/-- How many nodes are unvisited. -/
def Dfs.whites (st : Dfs n) : Nat := (Finset.univ.filter fun v => st.state v = .white).card

/-- How a search from `st` that was to finish `todo` may end: with the path as it was and `todo`
    in the order, or with the report of a closed walk. -/
def Ends (deps : Fin n → List (Fin n)) (names : Fin n → String) (st : Dfs n)
    (todo : List (Fin n)) : Option (Except KernelError (Dfs n)) → Prop
  | none => False
  | some (.ok st') =>
    st'.Inv deps ∧ st'.stack = st.stack ∧ st.order ⊆ st'.order ∧ todo ⊆ st'.order
  | some (.error e) => ∃ walk, ClosedWalk deps walk ∧ e = .dependencyCycle (walk.map names)

section Spec

variable {deps : Fin n → List (Fin n)} {names : Fin n → String} {st st' : Dfs n}

theorem Dfs.Inv.white_iff (h : st.Inv deps) (v : Fin n) :
    st.state v = .white ↔ v ∉ st.stack ∧ v ∉ st.order := by
  rw [← h.gray, ← h.black]
  cases st.state v <;> simp

theorem Dfs.Inv.enter (h : st.Inv deps) {node : Fin n} (hwhite : st.state node = .white) :
    (st.enter node).Inv deps where
  gray v := by
    by_cases hv : v = node
    · simp [Dfs.enter, hv]
    · simp [Dfs.enter, hv, h.gray]
  black v := by
    have hnot := ((h.white_iff node).mp hwhite).2
    by_cases hv : v = node
    · simp [Dfs.enter, hv, hnot]
    · simp [Dfs.enter, hv, h.black]
  nodup := h.nodup
  first := h.first

/-- Leaving a node whose dependencies are all done puts it behind them. -/
theorem Dfs.Inv.leave (h : st.Inv deps) {base : List (Fin n)} {node : Fin n}
    (hstack : st.stack = base ++ [node]) (hbase : node ∉ base)
    (hdone : deps node ⊆ st.order) : (st.leave node).Inv deps where
  gray v := by
    have hgray := h.gray v
    rw [hstack] at hgray
    by_cases hv : v = node
    · simp [Dfs.leave, hv, hstack, hbase]
    · simpa [Dfs.leave, hv, hstack] using hgray
  black v := by
    by_cases hv : v = node
    · simp [Dfs.leave, hv]
    · simp [Dfs.leave, hv, h.black]
  nodup := by
    have hnot : node ∉ st.order := by
      intro hmem
      have hgray := (h.gray node).mpr (by simp [hstack])
      rw [(h.black node).mpr hmem] at hgray
      exact absurd hgray (by simp)
    exact List.nodup_append.mpr ⟨h.nodup, List.nodup_singleton _, fun a ha b hb heq =>
      hnot ((heq.trans (List.mem_singleton.mp hb)) ▸ ha)⟩
  first := h.first.concat hdone

theorem Dfs.whites_enter {node : Fin n} (hwhite : st.state node = .white) :
    (st.enter node).whites < st.whites := by
  refine Finset.card_lt_card (Finset.ssubset_iff_of_subset ?_ |>.mpr ⟨node, ?_, ?_⟩)
  · intro v hv
    have hv := (Finset.mem_filter.mp hv).2
    by_cases heq : v = node
    · exact absurd hv (by simp [Dfs.enter, heq])
    · exact Finset.mem_filter.mpr ⟨Finset.mem_univ v, by simpa [Dfs.enter, heq] using hv⟩
  · exact Finset.mem_filter.mpr ⟨Finset.mem_univ node, hwhite⟩
  · rw [Finset.mem_filter]
    simp [Dfs.enter]

/-- A visited node stays visited. -/
theorem Dfs.Inv.whites_le (h : st.Inv deps) (h' : st'.Inv deps) (hstack : st'.stack = st.stack)
    (horder : st.order ⊆ st'.order) : st'.whites ≤ st.whites := by
  refine Finset.card_le_card ?_
  intro v hv
  obtain ⟨hnotStack, hnotOrder⟩ := (h'.white_iff v).mp (Finset.mem_filter.mp hv).2
  rw [hstack] at hnotStack
  refine Finset.mem_filter.mpr ⟨Finset.mem_univ v, (h.white_iff v).mpr ⟨hnotStack, ?_⟩⟩
  exact fun hmem => hnotOrder (horder hmem)

/-- A dependency of the node on top of the path that is on the path itself closes a walk. -/
theorem Dfs.cyclePath_closed {base : List (Fin n)} {node dep : Fin n}
    (hstack : st.stack = base ++ [node]) (hchain : st.stack.IsChain (DependsOn deps))
    (hdep : dep ∈ deps node) (hmem : dep ∈ st.stack) : ClosedWalk deps (st.cyclePath dep) := by
  obtain ⟨before, after, hsplit, hfresh⟩ := List.eq_append_cons_of_mem hmem
  have hpath : st.cyclePath dep = (dep :: after) ++ [dep] := by
    have hskip : ∀ v ∈ before, (v != dep) = true := by
      intro v hv
      simpa using fun heq : v = dep => hfresh (heq ▸ hv)
    rw [Dfs.cyclePath, hsplit, List.dropWhile_append_of_pos hskip,
      List.dropWhile_cons_of_neg (by simp)]
  have htop : (dep :: after).getLast? = some node := by
    have hlast : st.stack.getLast? = some node := by rw [hstack, List.getLast?_concat]
    rwa [hsplit, List.getLast?_append_cons] at hlast
  rw [hpath]
  refine ⟨List.isChain_append.mpr ⟨?_, List.isChain_singleton dep, ?_⟩, ?_, by simp⟩
  · exact hchain.suffix (hsplit ▸ List.suffix_append before (dep :: after))
  · intro x hx y hy
    rw [htop] at hx
    obtain rfl : node = x := by simpa using hx
    obtain rfl : dep = y := by simpa using hy
    exact hdep
  · rw [List.getLast?_concat]
    rfl

/-- A search that went on from where another ended ends as the two together. -/
theorem Ends.trans {todo more : List (Fin n)} {result : Option (Except KernelError (Dfs n))}
    (h : Ends deps names st todo (some (.ok st'))) (h' : Ends deps names st' more result) :
    Ends deps names st (todo ++ more) result := by
  obtain ⟨-, hstack, horder, htodo⟩ := h
  match result, h' with
  | some (.ok _), ⟨hinv, hstack', horder', hmore⟩ =>
    exact ⟨hinv, hstack'.trans hstack, List.Subset.trans horder horder',
      List.append_subset.mpr ⟨List.Subset.trans htodo horder', hmore⟩⟩
  | some (.error _), hwalk => exact hwalk

theorem visitDeps_spec {visit : Fin n → Dfs n → Option (Except KernelError (Dfs n))} {fuel : Nat}
    (hvisit : ∀ dep (st : Dfs n), st.Inv deps → st.state dep = .white →
      (st.stack ++ [dep]).IsChain (DependsOn deps) → st.whites ≤ fuel →
        Ends deps names st [dep] (visit dep st))
    {base : List (Fin n)} {node : Fin n} {ds : List (Fin n)} (hds : ds ⊆ deps node)
    (hinv : st.Inv deps) (hfuel : st.whites ≤ fuel) (hstack : st.stack = base ++ [node])
    (hchain : st.stack.IsChain (DependsOn deps)) :
    Ends deps names st ds (visitDeps names visit ds st) := by
  induction ds generalizing st with
  | nil => exact ⟨hinv, rfl, List.Subset.refl _, List.nil_subset _⟩
  | cons dep ds ih =>
    obtain ⟨hdep, hds⟩ := List.cons_subset.mp hds
    cases hcolor : st.state dep with
    | white =>
      have hpush : (st.stack ++ [dep]).IsChain (DependsOn deps) := by
        refine List.isChain_append.mpr ⟨hchain, List.isChain_singleton dep, ?_⟩
        intro x hx y hy
        rw [hstack, List.getLast?_concat] at hx
        obtain rfl : node = x := by simpa using hx
        obtain rfl : dep = y := by simpa using hy
        exact hdep
      have hends := hvisit dep st hinv hcolor hpush hfuel
      simp only [visitDeps, hcolor]
      cases hresult : visit dep st with
      | none => exact absurd hends (by simp [hresult, Ends])
      | some result =>
        rw [hresult] at hends
        cases result with
        | error e => exact hends
        | ok st' =>
          obtain ⟨hinv', hstack', horder, -⟩ := id hends
          have hrest := ih hds hinv' ((hinv.whites_le hinv' hstack' horder).trans hfuel)
            (hstack'.trans hstack) (hstack' ▸ hchain)
          exact hends.trans hrest
    | gray =>
      simp only [visitDeps, hcolor]
      exact ⟨st.cyclePath dep, st.cyclePath_closed hstack hchain hdep ((hinv.gray dep).mp hcolor),
        rfl⟩
    | black =>
      simp only [visitDeps, hcolor]
      have hdone : Ends deps names st [dep] (some (.ok st)) :=
        ⟨hinv, rfl, List.Subset.refl _, by simpa using (hinv.black dep).mp hcolor⟩
      exact hdone.trans (ih hds hinv hfuel hstack hchain)

theorem visit_spec {fuel : Nat} {node : Fin n} (hinv : st.Inv deps)
    (hwhite : st.state node = .white) (hchain : (st.stack ++ [node]).IsChain (DependsOn deps))
    (hfuel : st.whites ≤ fuel) : Ends deps names st [node] (visit deps names fuel node st) := by
  induction fuel generalizing st node with
  | zero =>
    have hlt := st.whites_enter hwhite
    exact absurd hlt (by omega)
  | succ fuel ih =>
    have hlt := st.whites_enter hwhite
    have hends := visitDeps_spec
      (fun dep st hinv hwhite hchain hfuel => ih hinv hwhite hchain hfuel)
      (List.Subset.refl (deps node)) (hinv.enter hwhite) (by omega) rfl hchain
    rw [visit]
    cases hresult : visitDeps names (visit deps names fuel) (deps node) (st.enter node) with
    | none => exact absurd hends (by simp [hresult, Ends])
    | some result =>
      rw [hresult] at hends
      cases result with
      | error e => exact hends
      | ok st' =>
        obtain ⟨hinv', hstack, horder, hdone⟩ := hends
        have hbase := ((hinv.white_iff node).mp hwhite).1
        refine ⟨hinv'.leave hstack hbase hdone, ?_, ?_, ?_⟩
        · show st'.stack.dropLast = st.stack
          rw [hstack]
          exact List.dropLast_concat
        · exact List.Subset.trans horder (List.subset_append_left _ _)
        · exact List.subset_append_right _ _

theorem visitAll_spec {starts : List (Fin n)} (hinv : st.Inv deps) (hstack : st.stack = []) :
    Ends deps names st starts (visitAll deps names starts st) := by
  induction starts generalizing st with
  | nil => exact ⟨hinv, rfl, List.Subset.refl _, List.nil_subset _⟩
  | cons start starts ih =>
    rw [visitAll]
    split
    · next hwhite =>
      have hchain : (st.stack ++ [start]).IsChain (DependsOn deps) := by
        rw [hstack]
        exact List.isChain_singleton start
      have hfuel : st.whites ≤ n := (Finset.card_filter_le _ _).trans_eq (Finset.card_fin n)
      have hends : Ends deps names st [start] (visit deps names n start st) :=
        visit_spec hinv hwhite hchain hfuel
      cases hresult : visit deps names n start st with
      | none => exact absurd hends (by simp [hresult, Ends])
      | some result =>
        rw [hresult] at hends
        cases result with
        | error e => exact hends
        | ok st' =>
          obtain ⟨hinv', hstack', -, -⟩ := id hends
          exact hends.trans (ih hinv' (hstack'.trans hstack))
    · next hvisited =>
      -- nothing is on the path between two starts, so what is not white is done
      have hmem : start ∈ st.order := by
        by_contra hnot
        exact hvisited ((hinv.white_iff start).mpr ⟨by rw [hstack]; simp, hnot⟩)
      have hdone : Ends deps names st [start] (some (.ok st)) :=
        ⟨hinv, rfl, List.Subset.refl _, by simpa using hmem⟩
      exact hdone.trans (ih hinv hstack)

end Spec

/-! ## The sort -/

variable {deps : Fin n → List (Fin n)} {names : Fin n → String}

/-- The two ways the sort ends: with every node once, dependencies first, or with a closed walk. -/
theorem toposort_cases (deps : Fin n → List (Fin n)) (names : Fin n → String) :
    (∃ order, toposort deps names = some (.ok order) ∧
        order.Nodup ∧ DepsFirst deps order ∧ ∀ v, v ∈ order) ∨
      ∃ walk, toposort deps names = some (.error (.dependencyCycle (walk.map names))) ∧
        ClosedWalk deps walk := by
  have hends : Ends deps names Dfs.start (List.finRange n)
      (visitAll deps names (List.finRange n) Dfs.start) := visitAll_spec Dfs.Inv.start rfl
  unfold toposort
  cases hresult : visitAll deps names (List.finRange n) Dfs.start with
  | none => exact absurd hends (by simp [hresult, Ends])
  | some result =>
    rw [hresult] at hends
    cases result with
    | ok st =>
      obtain ⟨hinv, -, -, hall⟩ := hends
      exact .inl ⟨st.order, rfl, hinv.nodup, hinv.first, fun v => hall (List.mem_finRange v)⟩
    | error e =>
      obtain ⟨walk, hwalk, rfl⟩ := hends
      exact .inr ⟨walk, rfl, hwalk⟩

theorem toposort_ok {order : List (Fin n)} (h : toposort deps names = some (.ok order)) :
    order.Nodup ∧ DepsFirst deps order ∧ ∀ v, v ∈ order := by
  cases toposort_cases deps names with
  | inl hok =>
    obtain ⟨order', hok, hspec⟩ := hok
    obtain rfl : order = order' := Except.ok.inj (Option.some.inj (h.symm.trans hok))
    exact hspec
  | inr hcycle =>
    obtain ⟨walk, herror, -⟩ := hcycle
    rw [h] at herror
    exact absurd (Option.some.inj herror) (by simp)

theorem toposort_error {path : List String}
    (h : toposort deps names = some (.error (.dependencyCycle path))) :
    ∃ walk, ClosedWalk deps walk ∧ path = walk.map names := by
  cases toposort_cases deps names with
  | inl hok =>
    obtain ⟨order', hok, -⟩ := hok
    rw [h] at hok
    exact absurd (Option.some.inj hok) (by simp)
  | inr hcycle =>
    obtain ⟨walk, herror, hwalk⟩ := hcycle
    rw [h] at herror
    exact ⟨walk, hwalk, by simpa using herror⟩

/-- Every node once is a permutation of the nodes. -/
theorem perm_finRange {order : List (Fin n)} (hnd : order.Nodup) (hall : ∀ v, v ∈ order) :
    order.Perm (List.finRange n) :=
  (List.perm_ext_iff_of_nodup hnd (List.nodup_finRange n)).mpr fun v =>
    iff_of_true (hall v) (List.mem_finRange v)

/-- The sort succeeds exactly on the tables without a cycle. -/
theorem toposort_ok_iff (deps : Fin n → List (Fin n)) (names : Fin n → String) :
    (∃ order, toposort deps names = some (.ok order)) ↔ ¬ Cyclic deps := by
  constructor
  · intro ⟨order, hok⟩
    obtain ⟨-, hfirst, hall⟩ := toposort_ok hok
    exact hfirst.acyclic hall
  · intro hacyclic
    cases toposort_cases deps names with
    | inl hok =>
      obtain ⟨order, hok, -⟩ := hok
      exact ⟨order, hok⟩
    | inr hcycle =>
      obtain ⟨walk, -, hwalk⟩ := hcycle
      exact absurd hwalk.cyclic hacyclic

/-- **The topological sort** always returns. It returns an order exactly when no node depends on
    itself, and then every node once, behind all it depends on; otherwise it reports a closed walk
    along dependencies. -/
theorem toposort_spec (deps : Fin n → List (Fin n)) (names : Fin n → String) :
    ((∃ order, toposort deps names = some (.ok order)) ∨
        ∃ path, toposort deps names = some (.error (.dependencyCycle path))) ∧
      ((∃ order, toposort deps names = some (.ok order)) ↔ ¬ Cyclic deps) ∧
      (∀ order, toposort deps names = some (.ok order) →
        order.Perm (List.finRange n) ∧ ∀ v, ∀ d ∈ deps v, order.idxOf d < order.idxOf v) ∧
      ∀ path, toposort deps names = some (.error (.dependencyCycle path)) →
        ∃ walk, ClosedWalk deps walk ∧ path = walk.map names := by
  refine ⟨?_, toposort_ok_iff deps names, ?_, fun path => toposort_error⟩
  · cases toposort_cases deps names with
    | inl hok =>
      obtain ⟨order, hok, -⟩ := hok
      exact .inl ⟨order, hok⟩
    | inr hcycle =>
      obtain ⟨walk, herror, -⟩ := hcycle
      exact .inr ⟨_, herror⟩
  · intro order hok
    obtain ⟨hnd, hfirst, hall⟩ := toposort_ok hok
    exact ⟨perm_finRange hnd hall, fun v d hd => hfirst.idxOf_lt (hall v) hd⟩

end Schedule
end EngineKit
