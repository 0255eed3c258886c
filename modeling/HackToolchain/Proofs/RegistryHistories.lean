import Mathlib.Data.Prod.Lex
import Mathlib.Data.Set.Card
import Mathlib.Data.String.Basic
import HackToolchain.Proofs.FunctionSurvey

/-! # What a registry goes through

A registry is filled by adding functions one after the other until it is frozen.  The names stay in the order in which
they first came in, while a name belongs to the unit that added it last.  What is added after the registry was frozen is
refused and changes nothing.  The listing depends on nothing but which name belongs to which unit.
-/
namespace HackToolchain.Link

open Outcome (result)

/-- What a registry can be asked to do. -/
inductive Request where
  | add (name unit : String)
  | freeze
  deriving DecidableEq, Repr

/-- Work on a registry. -/
abbrev Filing := ExceptT LinkError (StateM Registry)

namespace Filing

def add (name unit : String) : Filing Unit := do
  if (← get).frozen then throw (.frozen name)
  modify fun registry => { registry with entries := Registry.put name unit registry.entries }

def freeze : Filing Unit := modify Registry.freeze

end Filing

def Request.filing : Request → Filing Unit
  | .add name unit => .add name unit
  | .freeze => .freeze

namespace Registry

/-- A new registry after some requests, whatever came of them. -/
def after (history : List Request) : Registry :=
  history.foldl (fun registry request => (result request.filing registry).2) {}

/-- The functions that were added before the registry was first frozen. -/
def adds : List Request → List (String × String)
  | [] => []
  | .add name unit :: rest => (name, unit) :: adds rest
  | .freeze :: _ => []

section Requests

/-- Adding in place gives what adding gives, and changes nothing where that fails. -/
theorem result_add (registry : Registry) (name unit : String) : result (Request.add name unit).filing registry =
    ((registry.add name unit).map fun _ => (), (registry.add name unit).toOption.getD registry) := by
  obtain ⟨entries,frozen⟩ := registry
  cases frozen <;> rfl

theorem result_add_of_frozen {registry : Registry} (h : registry.frozen = true) (name unit : String) :
    result (Request.add name unit).filing registry = (.error (.frozen name), registry) := by
  rw [result_add, add, if_pos h]
  rfl

theorem result_add_of_open {registry : Registry} (h : registry.frozen = false) (name unit : String) :
    result (Request.add name unit).filing registry =
      (.ok (), { registry with entries := put name unit registry.entries }) := by
  rw [result_add, add, if_neg (by simp [h])]
  rfl

theorem result_freeze (registry : Registry) : result Request.freeze.filing registry = (.ok (), registry.freeze) := rfl

/-- The entries after functions have been added to none. -/
def enter (added : List (String × String)) : List (String × String) :=
  added.foldl (fun entries entry => put entry.1 entry.2 entries) []

theorem enter_concat (added : List (String × String)) (entry : String × String) :
    enter (added ++ [entry]) = put entry.1 entry.2 (enter added) := List.foldl_concat _ _ _ _

theorem after_concat (history : List Request) (request : Request) :
    after (history ++ [request]) = (result request.filing (after history)).2 := by
  rw [after, List.foldl_concat]
  rfl

theorem adds_append_of_mem {history : List Request} (h : .freeze ∈ history) (later : List Request) :
    adds (history ++ later) = adds history := by
  induction history with
  | nil => cases h
  | cons request rest ih =>
    cases request with
    | add name unit =>
      have hrest : .freeze ∈ rest := by simpa using h
      rw [List.cons_append, adds, adds, ih hrest]
    | freeze => rfl

theorem adds_append_of_not_mem {history : List Request} (h : .freeze ∉ history) (later : List Request) :
    adds (history ++ later) = adds history ++ adds later := by
  induction history with
  | nil => rfl
  | cons request rest ih =>
    obtain ⟨hrequest,hrest⟩ := not_or.mp (mt List.mem_cons.mpr h)
    cases request with
    | add name unit => rw [List.cons_append, adds, adds, ih hrest, List.cons_append]
    | freeze => exact absurd rfl hrequest

/-- A registry holds what was added before it was first frozen, and is frozen from then on. -/
theorem after_eq (history : List Request) : after history = ⟨enter (adds history), decide (.freeze ∈ history)⟩ := by
  induction history using List.reverseRecOn with
  | nil => rfl
  | append_singleton history request ih =>
    rw [after_concat, ih]
    by_cases hf : .freeze ∈ history
    · rw [adds_append_of_mem hf]
      cases request with
      | add name unit => rw [result_add_of_frozen (by simpa using hf)]; simp [hf]
      | freeze => rw [result_freeze, freeze]; simp
    · rw [adds_append_of_not_mem hf]
      cases request with
      | add name unit => rw [result_add_of_open (by simpa using hf)]; simp [hf, adds, enter_concat]
      | freeze => rw [result_freeze, freeze]; simp [adds]

end Requests

section Entries

theorem map_fst_put (name unit : String) (entries : List (String × String)) :
    (put name unit entries).map Prod.fst =
      if name ∈ entries.map Prod.fst then entries.map Prod.fst else entries.map Prod.fst ++ [name] := by
  induction entries with
  | nil => rfl
  | cons entry rest ih =>
    rw [put]
    by_cases hn : entry.1 = name
    · simp [hn]
    · rw [if_neg hn, List.map_cons, ih]
      by_cases hr : name ∈ rest.map Prod.fst
      · simp [hr]
      · simp [hr, Ne.symm hn]

theorem eraseDups_concat (names : List String) (name : String) : (names ++ [name]).eraseDups =
    if name ∈ names then names.eraseDups else names.eraseDups ++ [name] := by
  rw [List.eraseDups_append]
  by_cases hn : name ∈ names
  · simp [hn, List.removeAll]
  · simp [hn, List.removeAll, List.eraseDups_cons]

/-- A name that is added again keeps its place. -/
theorem map_fst_enter (added : List (String × String)) :
    (enter added).map Prod.fst = (added.map Prod.fst).eraseDups := by
  induction added using List.reverseRecOn with
  | nil => rfl
  | append_singleton added entry ih =>
    rw [enter_concat, map_fst_put, List.map_append, List.map_singleton, eraseDups_concat, ih]
    simp only [List.mem_eraseDups]

/-- A name that is added again goes to the new unit. -/
theorem lookup_enter (added : List (String × String)) (name : String) :
    (enter added).lookup name = added.reverse.lookup name := by
  induction added using List.reverseRecOn with
  | nil => rfl
  | append_singleton added entry ih =>
    obtain ⟨other,unit⟩ := entry
    rw [enter_concat, lookup_put, ih, List.reverse_append, List.reverse_singleton, List.singleton_append,
      List.lookup_cons]
    by_cases hn : name = other
    · simp [hn]
    · simp [hn, beq_eq_false_iff_ne.mpr hn]

theorem pairwise_idxOf_eraseDups (names : List String) :
    names.eraseDups.Pairwise fun x y => names.idxOf x < names.idxOf y := by
  induction names using List.reverseRecOn with
  | nil => exact .nil
  | append_singleton names name ih =>
    have hidx : ∀ x ∈ names.eraseDups, (names ++ [name]).idxOf x = names.idxOf x := by
      intro x hx
      rw [List.idxOf_append, if_pos (List.mem_eraseDups.mp hx)]
    have hbefore : names.eraseDups.Pairwise fun x y => (names ++ [name]).idxOf x < (names ++ [name]).idxOf y := by
      refine ih.imp_of_mem ?_
      intro x y hx hy hlt
      rwa [hidx x hx, hidx y hy]
    rw [eraseDups_concat]
    split
    next => exact hbefore
    next hn =>
      refine List.pairwise_append.mpr ⟨hbefore,List.pairwise_singleton _ _,?_⟩
      intro x hx y hy
      rw [List.mem_singleton.mp hy, hidx x hx, List.idxOf_append, if_neg hn]
      have hlt := List.idxOf_lt_length_of_mem (List.mem_eraseDups.mp hx)
      omega

theorem lookup_reverse_eq_some {added : List (String × String)} {name unit : String} :
    added.reverse.lookup name = some unit ↔
      ∃ before later, added = before ++ (name, unit) :: later ∧ name ∉ later.map Prod.fst := by
  rw [List.lookup_eq_some_iff]
  constructor
  · rintro ⟨later,before,he,hl⟩
    refine ⟨before.reverse,later.reverse,?_,?_⟩
    · rw [← List.reverse_reverse added, he]
      simp
    · intro hm
      obtain ⟨entry,hentry,rfl⟩ := List.mem_map.mp hm
      simpa using hl entry (List.mem_reverse.mp hentry)
  · rintro ⟨before,later,rfl,hl⟩
    refine ⟨later.reverse,before.reverse,by simp,?_⟩
    intro entry hm
    rw [bne_iff_ne]
    rintro rfl
    exact hl (List.mem_map.mpr ⟨entry,List.mem_reverse.mp hm,rfl⟩)

end Entries

section Owners

variable {registry : Registry} (h : registry.names.Nodup)
include h

theorem lookup_eq_some_iff {name unit : String} : registry.lookup name = some unit ↔ (name, unit) ∈ registry.entries :=
  Compile.lookup_eq_some h

theorem mem_names_iff {name : String} : name ∈ registry.names ↔ ∃ unit, registry.lookup name = some unit := by
  simp only [lookup_eq_some_iff h, names, List.mem_map, Prod.exists, exists_and_right, exists_eq_right]

theorem contains_iff {name : String} : registry.contains name = true ↔ name ∈ registry.names := by
  rw [contains, Option.isSome_iff_exists, mem_names_iff h]

theorem namesOf_eq (unit : String) :
    registry.namesOf unit = registry.names.filter fun name => registry.lookup name = some unit := by
  rw [names, List.filter_map, namesOf]
  congr 1
  apply List.filter_congr
  intro entry hm
  have hentry := (lookup_eq_some_iff h).mpr hm
  simp [hentry, beq_eq_decide]

theorem length_entries : registry.entries.length = {name | registry.contains name = true}.ncard := by
  have hset : {name | registry.contains name = true} = registry.names.toFinset := by
    ext name
    simp [contains_iff h]
  rw [hset, Set.ncard_coe_finset, List.toFinset_card_of_nodup h, names, List.length_map]

/-- Every name belongs to exactly one unit. -/
theorem flatMap_namesOf_perm {owners : List String} (hn : owners.Nodup)
    (ho : ∀ unit, unit ∈ owners ↔ ∃ name, registry.lookup name = some unit) :
    (owners.flatMap registry.namesOf).Perm registry.names := by
  refine (List.perm_ext_iff_of_nodup (List.nodup_flatMap.mpr ⟨?_,hn.imp ?_⟩) h).mpr ?_
  · intro unit _
    rw [namesOf_eq h]
    exact h.filter _
  · intro unit other hne name hu hv
    rw [namesOf_eq h, List.mem_filter, decide_eq_true_eq] at hu hv
    exact hne (Option.some.inj (hu.2.symm.trans hv.2))
  · intro name
    simp only [List.mem_flatMap, namesOf_eq h, List.mem_filter, decide_eq_true_eq]
    constructor
    · rintro ⟨unit,-,hm,-⟩
      exact hm
    · intro hm
      obtain ⟨unit,hu⟩ := (mem_names_iff h).mp hm
      exact ⟨unit,(ho unit).mpr ⟨name,hu⟩,hm,hu⟩

end Owners

section Order

def codePoints (text : String) : List Nat := text.toList.map Char.toNat

/-- By unit first, then by name, both by their code points. -/
def Precedes (x y : String × String) : Prop :=
  codePoints x.2 < codePoints y.2 ∨ x.2 = y.2 ∧ codePoints x.1 < codePoints y.1

theorem codePoints_injective : Function.Injective codePoints := by
  intro x y h
  exact String.toList_injective (List.map_injective_iff.mpr (fun _ _ => Char.toNat_inj.mp) h)

theorem codePoints_lt_of_lt {x y : String} (h : x < y) : codePoints x < codePoints y :=
  List.map_lt (fun _ _ hlt => hlt) (String.lt_iff.mp h)

theorem lt_iff_codePoints_lt {x y : String} : x < y ↔ codePoints x < codePoints y := by
  refine ⟨codePoints_lt_of_lt,fun h => ?_⟩
  rcases lt_trichotomy x y with hlt | rfl | hgt
  · exact hlt
  · exact absurd h (lt_irrefl _)
  · exact absurd (codePoints_lt_of_lt hgt) (lt_asymm h)

/-- The order of the listing as the order of one key. -/
def sortKey (entry : String × String) : List Nat ×ₗ List Nat := toLex (codePoints entry.2, codePoints entry.1)

theorem sortKey_injective : Function.Injective sortKey := by
  intro x y h
  obtain ⟨hu,hn⟩ := Prod.mk.inj (toLex.injective h)
  exact Prod.ext (codePoints_injective hn) (codePoints_injective hu)

theorem precedes_iff {x y : String × String} : Precedes x y ↔ sortKey x < sortKey y := by
  rw [sortKey, sortKey, Prod.Lex.toLex_lt_toLex, codePoints_injective.eq_iff]
  rfl

theorem entryLe_iff {x y : String × String} : entryLe x y = true ↔ sortKey x ≤ sortKey y := by
  rw [sortKey, sortKey, Prod.Lex.toLex_le_toLex, codePoints_injective.eq_iff, ← lt_iff_codePoints_lt, ← not_lt,
    ← lt_iff_codePoints_lt, not_lt]
  simp [entryLe]

theorem pairwise_precedes {registry : Registry} (h : registry.names.Nodup) :
    (registry.entries.mergeSort entryLe).Pairwise Precedes := by
  have hle : (registry.entries.mergeSort entryLe).Pairwise fun x y => entryLe x y = true := by
    refine List.pairwise_mergeSort ?_ ?_ _
    · intro x y z hxy hyz
      exact entryLe_iff.mpr (le_trans (entryLe_iff.mp hxy) (entryLe_iff.mp hyz))
    · intro x y
      rw [Bool.or_eq_true, entryLe_iff, entryLe_iff]
      exact le_total _ _
  have hne : (registry.entries.mergeSort entryLe).Nodup :=
    (List.mergeSort_perm _ _).nodup_iff.mpr (List.Nodup.of_map _ h)
  refine (hle.and hne).imp ?_
  rintro x y ⟨hxy,hne⟩
  exact precedes_iff.mpr (lt_of_le_of_ne (entryLe_iff.mp hxy) (sortKey_injective.ne hne))

/-- The listing is known once it is known which name belongs to which unit. -/
theorem listing_congr {registry other : Registry} (h : registry.names.Nodup) (ho : other.names.Nodup)
    (hl : ∀ name, registry.lookup name = other.lookup name) : registry.listing = other.listing := by
  have hperm : (registry.entries.mergeSort entryLe).Perm (other.entries.mergeSort entryLe) := by
    refine (List.mergeSort_perm _ _).trans (.trans ?_ (List.mergeSort_perm _ _).symm)
    refine (List.perm_ext_iff_of_nodup (List.Nodup.of_map _ h) (List.Nodup.of_map _ ho)).mpr ?_
    rintro ⟨name,unit⟩
    rw [← lookup_eq_some_iff h, ← lookup_eq_some_iff ho, hl]
  have hsorted : registry.entries.mergeSort entryLe = other.entries.mergeSort entryLe := by
    refine hperm.eq_of_pairwise ?_ (pairwise_precedes h) (pairwise_precedes ho)
    intro x y _ _ hxy hyx
    exact absurd (precedes_iff.mp hxy) (lt_asymm (precedes_iff.mp hyx))
  rw [listing, hsorted, listing]

end Order

/-- What a registry tells after some requests. -/
structure TellsHistory (history : List Request) : Prop where
  distinct : (after history).names.Nodup
  listed : ∀ name, name ∈ (after history).names ↔ name ∈ (adds history).map Prod.fst
  ordered : (after history).names.Pairwise fun x y =>
    ((adds history).map Prod.fst).idxOf x < ((adds history).map Prod.fst).idxOf y
  owner : ∀ name unit, (after history).lookup name = some unit ↔
    ∃ before later, adds history = before ++ (name, unit) :: later ∧ name ∉ later.map Prod.fst
  contained : ∀ name, (after history).contains name = true ↔ ∃ unit, (after history).lookup name = some unit
  counted : (after history).entries.length = {name | (after history).contains name = true}.ncard
  frozen : (after history).frozen = true ↔ .freeze ∈ history
  accepted : .freeze ∉ history → ∀ name unit, result (Request.add name unit).filing (after history) =
    (.ok (), after (history ++ [.add name unit]))
  refused : .freeze ∈ history → ∀ name unit, result (Request.add name unit).filing (after history) =
    (.error (.frozen name), after history)
  inPlace : ∀ name unit, result (Request.add name unit).filing (after history) =
    (((after history).add name unit).map fun _ => (), ((after history).add name unit).toOption.getD (after history))
  resting : .freeze ∈ history → ∀ later, after (history ++ later) = after history
  owned : ∀ unit, (after history).namesOf unit =
    (after history).names.filter fun name => (after history).lookup name = some unit
  divided : ∀ owners : List String, owners.Nodup →
    (∀ unit, unit ∈ owners ↔ ∃ name, (after history).lookup name = some unit) →
    (owners.flatMap (after history).namesOf).Perm (after history).names
  sorted : ∃ rows : List (String × String), rows.Pairwise Precedes ∧
    (∀ name unit, (name, unit) ∈ rows ↔ (after history).lookup name = some unit) ∧
    (after history).listing = "\n".intercalate (rows.map fun row => row.1 ++ " = " ++ row.2)
  determined : ∀ other, (∀ name, (after history).lookup name = (after other).lookup name) →
    (after history).listing = (after other).listing

theorem names_after (history : List Request) : (after history).names = ((adds history).map Prod.fst).eraseDups := by
  rw [after_eq]
  exact map_fst_enter _

theorem nodup_names_after (history : List Request) : (after history).names.Nodup := by
  rw [names_after]
  exact (pairwise_idxOf_eraseDups _).imp fun hlt he => absurd (he ▸ hlt) (Nat.lt_irrefl _)

/-- Names keep the order in which they were first added and the unit that added them last; once frozen, nothing changes
any more; and the listing tells each name once, sorted by unit and name. -/
theorem registry_tells_history (history : List Request) : TellsHistory history := by
  have hn := nodup_names_after history
  have hfrozen : (after history).frozen = decide (.freeze ∈ history) := by rw [after_eq]
  refine ⟨hn,?_,?_,?_,?_,length_entries hn,by simp [hfrozen],?_,?_,result_add _,?_,namesOf_eq hn,?_,?_,?_⟩
  · intro name
    rw [names_after, List.mem_eraseDups]
  · rw [names_after]
    exact pairwise_idxOf_eraseDups _
  · intro name unit
    rw [after_eq, lookup, lookup_enter, lookup_reverse_eq_some]
  · intro name
    rw [contains_iff hn, mem_names_iff hn]
  · intro hf name unit
    rw [after_concat, result_add_of_open (by simp [hfrozen, hf])]
  · intro hf name unit
    rw [result_add_of_frozen (by simp [hfrozen, hf])]
  · intro hf later
    rw [after_eq, after_eq, adds_append_of_mem hf]
    simp [hf]
  · intro owners
    exact flatMap_namesOf_perm hn
  · refine ⟨(after history).entries.mergeSort entryLe,pairwise_precedes hn,?_,?_⟩
    · intro name unit
      rw [(List.mergeSort_perm _ _).mem_iff, lookup_eq_some_iff hn]
    · rfl
  · intro other
    exact listing_congr hn (nodup_names_after other)

example : (after [.add "f" "A", .add "g" "B", .add "f" "B", .freeze, .add "g" "A"]).entries = [("f", "B"), ("g", "B")] := by
  decide

end Registry

end HackToolchain.Link
