import FreeRDP.Collections.Equiv.HashTable
import FreeRDP.Lib.Traced

/-!
# `HashTable_Foreach`

The iteration of `HashTable.c`, with a callback that may itself call the functions of the table, and
`HashTable_Foreach` among them.  A callback is a program that makes calls and goes on with their
answers; its argument is a state that the callbacks pass on.

What the callbacks do is recorded: each call with the table that it finds, and what they return.

Pairs only come in front of a chain while it is iterated, and none leaves it, so that a pair is known by the
number of pairs from it on.
-/

namespace FreeRDP.Collections

open Traced

variable {K V σ : Type}

inductive ForeachEvent (K V : Type) where
  | called (call : HashTableCall K V) (calls : Calls K V) (table : HashTable K V)
  | returned (ret : Bool)

inductive Callback (K V σ : Type) where
  | ret (ret : Bool) (arg : σ)
  | call (call : HashTableCall K V) (calls : Calls K V) (next : HashTableAnswer K V → Callback K V σ)
  | foreach (fn : σ → K → V → Callback K V σ) (arg : σ) (next : Bool → σ → Callback K V σ)

/-- What a part of an iteration returns, with the argument and the table behind it, if it returns. -/
abbrev ForeachResult (K V σ : Type) := Option (Bool × σ × HashTable K V)

namespace HashTable

/-- The inner loop, over the last pairs of a chain. -/
def foreachChain (fn : σ → K → V → HashTable K V → Traced (ForeachEvent K V) (ForeachResult K V σ))
    (index : ℕ) : ℕ → σ → HashTable K V → Traced (ForeachEvent K V) (ForeachResult K V σ)
  | 0, arg, table => pure (some (true, arg, table))
  | left + 1, arg, table =>
    let chain := table.bucketArray index
    match chain.drop (chain.length - (left + 1)) with
    | [] => pure (some (true, arg, table))
    | pair :: _ =>
      if pair.markedForRemove then foreachChain fn index left arg table
      else do
        match ← fn arg pair.key pair.value table with
        | none => pure none
        | some (ret, arg, table) =>
          access (.returned ret)
          if ret then foreachChain fn index left arg table else pure (some (false, arg, table))

/-- The outer loop, over the last buckets. -/
def foreachBuckets (fn : σ → K → V → HashTable K V → Traced (ForeachEvent K V) (ForeachResult K V σ)) :
    ℕ → σ → HashTable K V → Traced (ForeachEvent K V) (ForeachResult K V σ)
  | 0, arg, table => pure (some (true, arg, table))
  | left + 1, arg, table => do
    let index := table.numOfBuckets - (left + 1)
    match ← foreachChain fn index (table.bucketArray index).length arg table with
    | some (true, arg, table) => foreachBuckets fn left arg table
    | result => pure result

/-- The pairs that are marked are taken out. -/
def purge (table : HashTable K V) : HashTable K V :=
  { table with
    bucketArray := fun index => (table.bucketArray index).filter fun pair => !pair.markedForRemove
    pendingRemoves := 0 }

/-- `HashTable_Foreach`.  A callback that returns `FALSE` leaves the loops and what is behind them. -/
def foreach (fn : σ → K → V → HashTable K V → Traced (ForeachEvent K V) (ForeachResult K V σ)) (arg : σ)
    (table : HashTable K V) : Traced (ForeachEvent K V) (ForeachResult K V σ) := do
  let table := { table with foreachRecursionLevel := table.foreachRecursionLevel + 1 }
  match ← foreachBuckets fn table.numOfBuckets arg table with
  | some (true, arg, table) =>
    let table := { table with foreachRecursionLevel := table.foreachRecursionLevel - 1 }
    if table.foreachRecursionLevel = 0 ∧ table.pendingRemoves % 2 ^ 32 ≠ 0 then
      pure (some (true, arg, table.purge))
    else pure (some (true, arg, table))
  | result => pure result

end HashTable

variable [Inhabited K] [Inhabited V] [DecidableEq K] [DecidableEq V]

def Callback.run (functions : HashTableFunctions K V) :
    Callback K V σ → HashTable K V → Traced (ForeachEvent K V) (ForeachResult K V σ)
  | .ret status arg, table => pure (some (status, arg, table))
  | .call tableCall calls next, table => do
    access (.called tableCall calls table)
    match table.call functions calls tableCall with
    | none => pure none
    | some (answer, table) => (next answer).run functions table
  | .foreach fn arg next, table => do
    match ← table.foreach (fun arg key value table => (fn arg key value).run functions table) arg with
    | none => pure none
    | some (status, arg, table) => (next status arg).run functions table

end FreeRDP.Collections

/-!
## A hash table while it is iterated

`Iterating h level table`: there are `level` iterations in progress.  Pairs that are to be removed are
still in their buckets; `numOfElements` counts the others and `pendingRemoves` counts them.  The calls
of a callback keep this, as long as no callback returns `FALSE`, removes a key twice or clears the
table, and when the last iteration ends the table is a finite map again (`foreach_consistent`).

Each of the three exceptions leaves a table that is none (`not_foreach_consistent`).
-/

namespace FreeRDP.Collections

open Buckets Traced

variable {K V σ : Type} {functions : HashTableFunctions K V} {h : functions.Lawful}
  {table table' : HashTable K V} {level : ℕ} {key : K} {value : V}

/-- The pairs of the table, also those that are to be removed. -/
abbrev HashTable.pairs (table : HashTable K V) : Multiset (KeyValuePair K V) :=
  contents table.numOfBuckets table.bucketArray

/-- The number of pairs that are marked, or that are not. -/
def countMarked (marked : Bool) (pairs : Multiset (KeyValuePair K V)) : ℕ :=
  pairs.countP fun pair => pair.markedForRemove = marked

/-- There are `level` iterations of the table in progress. -/
structure Iterating (h : functions.Lawful) (level : ℕ) (table : HashTable K V) : Prop where
  distinct : (table.pairs.map fun pair => h.classOf pair.key).Nodup
  placed : Placed (fun pair => table.index functions pair.key) table.numOfBuckets table.bucketArray
  numOfBuckets_pos : 0 < table.numOfBuckets
  numOfElements : table.numOfElements = countMarked false table.pairs
  pendingRemoves : table.pendingRemoves = countMarked true table.pairs
  pairs_lt : table.pairs.card < 2 ^ 31
  foreachRecursionLevel : table.foreachRecursionLevel = level

theorem countMarked_cons (marked : Bool) (pair : KeyValuePair K V) (pairs : Multiset (KeyValuePair K V)) :
    countMarked marked (pair ::ₘ pairs) =
      countMarked marked pairs + if pair.markedForRemove = marked then 1 else 0 :=
  Multiset.countP_cons _ pair pairs

theorem countMarked_le_card (marked : Bool) (pairs : Multiset (KeyValuePair K V)) :
    countMarked marked pairs ≤ pairs.card := Multiset.countP_le_card _ _

namespace Iterating

/-! ### Changes of a chain -/

theorem index_eq (hiter : Iterating h level table) {pair : KeyValuePair K V}
    (hpair : pair ∈ table.bucketArray (table.index functions key)) :
    table.index functions pair.key = table.index functions key :=
  hiter.placed _ (bucketOf_lt functions hiter.numOfBuckets_pos key) pair hpair

/-- A pair that is found gets another key of its class, another value or another mark. -/
theorem replace (hiter : Iterating h level table) {front rest : List (KeyValuePair K V)}
    {pair : KeyValuePair K V} (pair' : KeyValuePair K V) {others : Multiset (KeyValuePair K V)}
    {n pending : ℤ} (hfound : Found functions table key front pair rest others)
    (hkey' : functions.keyCompare key pair'.key = true)
    (hn : n = countMarked false (pair' ::ₘ others))
    (hpending : pending = countMarked true (pair' ::ₘ others)) :
    Iterating h level
      { table.setBucket (table.index functions key) (front ++ pair' :: rest) with
        numOfElements := n, pendingRemoves := pending } := by
  have hclass : h.classOf pair'.key = h.classOf pair.key :=
    (HashTableFunctions.Lawful.classOf_eq_iff.mpr hkey').symm.trans
      (HashTableFunctions.Lawful.classOf_eq_iff.mpr hfound.keyCompare)
  have hcontents : table.pairs = pair ::ₘ others := hfound.pairs
  have hpairs : HashTable.pairs
      { table.setBucket (table.index functions key) (front ++ pair' :: rest) with
        numOfElements := n, pendingRemoves := pending } = pair' ::ₘ others := hfound.set pair'
  constructor
  · have hdistinct := hiter.distinct
    rw [hcontents, Multiset.map_cons] at hdistinct
    rw [hpairs, Multiset.map_cons, hclass]
    exact hdistinct
  · exact hiter.placed.update (hfound.index_set h hiter.placed hiter.numOfBuckets_pos hkey')
  · exact hiter.numOfBuckets_pos
  · rw [hpairs]
    exact hn
  · rw [hpairs]
    exact hpending
  · have hlt := hiter.pairs_lt
    rw [hcontents, Multiset.card_cons] at hlt
    rw [hpairs, Multiset.card_cons]
    exact hlt
  · exact hiter.foreachRecursionLevel

/-- A pair with a new key comes in front of its chain. -/
theorem cons (hiter : Iterating h level table) (pair : KeyValuePair K V)
    (hunmarked : pair.markedForRemove = false)
    (hnew : ∀ other ∈ table.pairs, functions.keyCompare pair.key other.key = false)
    (hroom : table.pairs.card + 1 < 2 ^ 31) :
    Iterating h level ((table.setBucket (table.index functions pair.key)
      (pair :: table.bucketArray (table.index functions pair.key))).addElements 1) := by
  have hpairs : HashTable.pairs ((table.setBucket (table.index functions pair.key)
      (pair :: table.bucketArray (table.index functions pair.key))).addElements 1) = pair ::ₘ table.pairs :=
    contents_update_cons (bucketOf_lt functions hiter.numOfBuckets_pos pair.key) table.bucketArray pair
  constructor
  · rw [hpairs, Multiset.map_cons, Multiset.nodup_cons]
    refine ⟨fun hmem => ?_, hiter.distinct⟩
    obtain ⟨other, hother, hclass⟩ := Multiset.mem_map.mp hmem
    have hkey := HashTableFunctions.Lawful.classOf_eq_iff.mp hclass.symm
    rw [hnew other hother] at hkey
    exact absurd hkey Bool.false_ne_true
  · refine hiter.placed.update fun p hp => ?_
    obtain rfl | hp := List.mem_cons.mp hp
    · rfl
    · exact hiter.index_eq hp
  · exact hiter.numOfBuckets_pos
  · have hle := countMarked_le_card false table.pairs
    have hcount := hiter.numOfElements
    rw [hpairs, countMarked_cons, if_pos hunmarked]
    show (table.numOfElements + 1).bmod (2 ^ 32) = _
    rw [hcount, bmod_of_lt (by omega) (by omega)]
    push_cast
    rfl
  · rw [hpairs, countMarked_cons, if_neg (by rw [hunmarked]; decide)]
    exact hiter.pendingRemoves
  · rw [hpairs, Multiset.card_cons]
    exact hroom
  · exact hiter.foreachRecursionLevel

theorem setLevel (hiter : Iterating h level table) (level' : ℕ) :
    Iterating h level' { table with foreachRecursionLevel := level' } :=
  ⟨hiter.distinct, hiter.placed, hiter.numOfBuckets_pos, hiter.numOfElements, hiter.pendingRemoves,
    hiter.pairs_lt, rfl⟩

theorem purge (hiter : Iterating h level table) :
    Iterating h level table.purge ∧ countMarked true table.purge.pairs = 0 := by
  have hpairs : table.purge.pairs = table.pairs.filter fun pair => (!pair.markedForRemove) = true :=
    contents_filter _ _ _
  have hnone : countMarked true table.purge.pairs = 0 := by
    refine Multiset.countP_eq_zero.mpr fun pair hpair => ?_
    rw [hpairs] at hpair
    rw [Bool.not_eq_true, ← Bool.not_eq_true']
    exact (Multiset.mem_filter.mp hpair).2
  have hcount : countMarked false table.purge.pairs = countMarked false table.pairs := by
    rw [hpairs, countMarked, Multiset.countP_filter]
    refine Multiset.countP_congr rfl fun pair _ => ?_
    cases pair.markedForRemove <;> decide
  refine ⟨⟨?_, ?_, hiter.numOfBuckets_pos, ?_, ?_, ?_, hiter.foreachRecursionLevel⟩, hnone⟩
  · rw [hpairs]
    exact Multiset.nodup_of_le (Multiset.map_le_map (Multiset.filter_le _ _)) hiter.distinct
  · intro i hi pair hpair
    exact hiter.placed i hi pair (List.mem_filter.mp hpair).1
  · rw [hcount]
    exact hiter.numOfElements
  · rw [hnone]
    rfl
  · rw [hpairs]
    exact (Multiset.card_le_card (Multiset.filter_le _ _)).trans_lt hiter.pairs_lt

/-! ### Calls of a callback -/

variable [Inhabited K] [Inhabited V] [DecidableEq K] [DecidableEq V] {calls : Calls K V}

theorem add (hiter : Iterating h (level + 1) table) (calls : Calls K V) (key : K) (value : V)
    (hroom : table.pairs.card + 1 < 2 ^ 31) :
    Iterating h (level + 1) (table.add functions calls key value).2 := by
  dsimp only [HashTable.add]
  generalize (if functions.keyClone then calls.keyClone else key) = kept
  generalize (if functions.valueClone then calls.valueClone else value) = keptValue
  by_cases hnull : key = default ∨ value = default
  · rw [if_pos hnull]
    exact hiter
  by_cases hkeyNull : kept = default
  · rw [if_neg hnull, if_pos hkeyNull]
    exact hiter
  by_cases hvalueNull : keptValue = default
  · rw [if_neg hnull, if_neg hkeyNull, if_pos hvalueNull]
    exact hiter
  rw [if_neg hnull, if_neg hkeyNull, if_neg hvalueNull]
  obtain ⟨front, pair, rest, others, hfound⟩ | ⟨hnone, hwalk⟩ :=
    walk_contents h hiter.placed hiter.numOfBuckets_pos kept
  · rw [hfound.walk]
    dsimp only
    have hcontents : table.pairs = pair ::ₘ others := hfound.pairs
    have hcount := hiter.numOfElements
    have hpending := hiter.pendingRemoves
    have hle := countMarked_le_card false table.pairs
    rw [hcontents, countMarked_cons] at hcount hpending
    rw [hcontents, countMarked_cons, Multiset.card_cons] at hle
    rw [hcontents, Multiset.card_cons] at hroom
    by_cases hmarked : pair.markedForRemove
    · -- the pair counts again
      rw [if_pos hmarked]
      rw [if_neg (by rw [hmarked]; decide)] at hcount hle
      rw [if_pos hmarked] at hpending
      refine hiter.replace ⟨kept, keptValue, false⟩ hfound (h.equivalence.refl _) ?_ ?_
      · rw [countMarked_cons, if_pos rfl]
        show (table.numOfElements + 1).bmod (2 ^ 32) = _
        rw [bmod_of_lt (by omega) (by omega), hcount]
        push_cast
        rfl
      · rw [countMarked_cons, if_neg Bool.false_ne_true, hpending]
        push_cast
        omega
    · rw [if_neg hmarked]
      rw [if_pos (Bool.eq_false_of_not_eq_true hmarked)] at hcount
      rw [if_neg hmarked] at hpending
      refine hiter.replace ⟨kept, keptValue, false⟩ hfound (h.equivalence.refl _) ?_ ?_
      · rw [countMarked_cons, if_pos rfl]
        exact hcount
      · rw [countMarked_cons, if_neg Bool.false_ne_true]
        exact hpending
  · rw [hwalk]
    dsimp only
    by_cases hmalloc : calls.malloc = true
    · have hcons := hiter.cons ⟨kept, keptValue, false⟩ rfl hnone hroom
      have hlevel : table.foreachRecursionLevel ≠ 0 := by
        rw [hiter.foreachRecursionLevel]
        exact Nat.succ_ne_zero level
      rw [if_neg (not_not.mpr hmalloc)]
      dsimp only
      rw [if_neg fun hrehash => hlevel hrehash.1]
      exact hcons
    · rw [if_pos hmalloc]
      exact hiter

/-- A pair that is not marked yet is marked. -/
theorem remove (hiter : Iterating h (level + 1) table) (calls : Calls K V) (key : K)
    (hunmarked : ∀ pair, table.get functions key = some pair → pair.markedForRemove = false) :
    Iterating h (level + 1) (table.remove functions calls key).2 := by
  have hlevel : table.foreachRecursionLevel ≠ 0 := by
    rw [hiter.foreachRecursionLevel]
    exact Nat.succ_ne_zero level
  dsimp only [HashTable.remove]
  obtain ⟨front, pair, rest, others, hfound⟩ | ⟨-, hwalk⟩ :=
    walk_contents h hiter.placed hiter.numOfBuckets_pos key
  · have hmarked : pair.markedForRemove = false :=
      hunmarked pair (by rw [HashTable.get, hfound.walk]; rfl)
    have hcontents : table.pairs = pair ::ₘ others := hfound.pairs
    have hcount := hiter.numOfElements
    have hpending := hiter.pendingRemoves
    have hlt := hiter.pairs_lt
    have hle := countMarked_le_card false others
    rw [hcontents, countMarked_cons, if_pos hmarked] at hcount
    rw [hcontents, countMarked_cons, if_neg (by rw [hmarked]; exact Bool.false_ne_true)] at hpending
    rw [hcontents, Multiset.card_cons] at hlt
    rw [hfound.walk]
    dsimp only
    rw [if_pos hlevel]
    refine hiter.replace { pair with markedForRemove := true } hfound hfound.keyCompare ?_ ?_
    · rw [countMarked_cons, if_neg Bool.true_eq_false_eq_False]
      show (table.numOfElements + -1).bmod (2 ^ 32) = _
      rw [hcount, bmod_of_lt (by push_cast; omega) (by push_cast; omega)]
      push_cast
      omega
    · rw [countMarked_cons, if_pos rfl, hpending]
      push_cast
      omega
  · rw [hwalk]
    exact hiter

theorem setItemValue (hiter : Iterating h level table) (calls : Calls K V) (key : K) (value : V) :
    Iterating h level (table.setItemValue functions calls key value).2 := by
  dsimp only [HashTable.setItemValue]
  by_cases hnull : functions.valueClone = true ∧ value ≠ default ∧ calls.valueClone = default
  · rw [if_pos hnull]
    exact hiter
  rw [if_neg hnull]
  generalize (if functions.valueClone ∧ value ≠ default then calls.valueClone else value) = kept
  obtain ⟨front, pair, rest, others, hfound⟩ | ⟨-, hwalk⟩ :=
    walk_contents h hiter.placed hiter.numOfBuckets_pos key
  · rw [hfound.walk]
    dsimp only
    have hcontents : table.pairs = pair ::ₘ others := hfound.pairs
    by_cases hmarked : pair.markedForRemove
    · rw [if_pos hmarked]
      exact hiter
    · rw [if_neg hmarked]
      refine hiter.replace { pair with value := kept } hfound hfound.keyCompare ?_ ?_
      · rw [countMarked_cons, ← countMarked_cons _ pair, ← hcontents]
        exact hiter.numOfElements
      · rw [countMarked_cons, ← countMarked_cons _ pair, ← hcontents]
        exact hiter.pendingRemoves
  · rw [hwalk]
    exact hiter

/-- There is memory for the keys, since `numOfElements` counts them. -/
theorem getKeys (hiter : Iterating h level table) (calls : Calls K V) :
    ∃ answer, table.getKeys calls = some answer := by
  unfold HashTable.getKeys
  by_cases hzero : table.numOfElements < 1
  · exact ⟨_, if_pos hzero⟩
  by_cases hcalloc : calls.calloc = true
  · have hlength : ((((List.range table.numOfBuckets).flatMap table.bucketArray).filter fun pair =>
        !pair.markedForRemove).map KeyValuePair.key).length = countMarked false table.pairs := by
      rw [List.length_map, HashTable.pairs, ← contents_flatMap, countMarked, Multiset.coe_countP,
        List.countP_eq_length_filter]
      refine congrArg List.length (List.filter_congr fun pair _ => ?_)
      cases pair.markedForRemove <;> rfl
    have hle : (((((List.range table.numOfBuckets).flatMap table.bucketArray).filter fun pair =>
        !pair.markedForRemove).map KeyValuePair.key).length : ℤ) ≤ table.numOfElements := by
      rw [hlength, hiter.numOfElements]
    rw [if_neg hzero, if_neg (not_not.mpr hcalloc)]
    dsimp only
    exact ⟨_, if_pos hle⟩
  · rw [if_neg hzero]
    exact ⟨_, if_pos hcalloc⟩

end Iterating

/-! ### What callbacks do -/

variable [Inhabited K] [Inhabited V] [DecidableEq K] [DecidableEq V]

/-- A callback removes no key that has been removed, does not clear the table, and does not return `FALSE`;
there are fewer than `2 ^ 31` pairs. -/
def ForeachEvent.Orderly (functions : HashTableFunctions K V) : ForeachEvent K V → Prop
  | .called (.add _ _) _ table => table.pairs.card + 1 < 2 ^ 31
  | .called (.remove key) _ table =>
    ∀ pair, table.get functions key = some pair → pair.markedForRemove = false
  | .called .clear _ _ => False
  | .called _ _ _ => True
  | .returned ret => ret = true

theorem Iterating.call (hiter : Iterating h (level + 1) table) {call : HashTableCall K V}
    {calls : Calls K V} (horderly : ForeachEvent.Orderly functions (.called call calls table)) :
    ∃ answer table', table.call functions calls call = some (answer, table') ∧
      Iterating h (level + 1) table' := by
  cases call with
  | add key value => exact ⟨_, _, rfl, hiter.add calls key value horderly⟩
  | remove key => exact ⟨_, _, rfl, hiter.remove calls key horderly⟩
  | setItemValue key value => exact ⟨_, _, rfl, hiter.setItemValue calls key value⟩
  | getKeys =>
    obtain ⟨answer, hkeys⟩ := hiter.getKeys calls
    exact ⟨_, table, by rw [HashTable.call, hkeys]; rfl, hiter⟩
  | clear => exact horderly.elim
  | getItemValue _ | contains _ | containsKey _ | containsValue _ | count => exact ⟨_, _, rfl, hiter⟩

/-- What is orderly returns, and keeps the table. -/
def Returns (functions : HashTableFunctions K V) (h : functions.Lawful) (level : ℕ)
    (x : Traced (ForeachEvent K V) (ForeachResult K V σ)) : Prop :=
  x.Safe (ForeachEvent.Orderly functions) →
    ∃ ret arg table, x.value = some (ret, arg, table) ∧ Iterating h level table

/-- What is orderly returns `TRUE`, and keeps the table. -/
def Completes (functions : HashTableFunctions K V) (h : functions.Lawful) (level : ℕ)
    (x : Traced (ForeachEvent K V) (ForeachResult K V σ)) : Prop :=
  x.Safe (ForeachEvent.Orderly functions) →
    ∃ arg table, x.value = some (true, arg, table) ∧ Iterating h level table

variable {fn : σ → K → V → HashTable K V → Traced (ForeachEvent K V) (ForeachResult K V σ)}

theorem completes_foreachChain
    (hfn : ∀ arg key value table, Iterating h level table →
      Returns functions h level (fn arg key value table))
    (index left : ℕ) (arg : σ) (hiter : Iterating h level table) :
    Completes functions h level (HashTable.foreachChain fn index left arg table) := by
  induction left generalizing arg table with
  | zero => exact fun _ => ⟨arg, table, rfl, hiter⟩
  | succ left ih =>
    rw [HashTable.foreachChain]
    cases (table.bucketArray index).drop ((table.bucketArray index).length - (left + 1)) with
    | nil => exact fun _ => ⟨arg, table, rfl, hiter⟩
    | cons pair rest =>
      dsimp only
      by_cases hmarked : pair.markedForRemove
      · rw [if_pos hmarked]
        exact ih arg hiter
      rw [if_neg hmarked]
      intro hsafe
      rw [safe_bind] at hsafe
      obtain ⟨hcall, hrest⟩ := hsafe
      obtain ⟨ret, arg', table', hvalue, hiter'⟩ := hfn arg pair.key pair.value table hiter hcall
      rw [hvalue] at hrest
      rw [value_bind, hvalue]
      dsimp only at hrest ⊢
      rw [safe_bind, safe_access] at hrest
      obtain ⟨hret, hloop⟩ := hrest
      obtain rfl : ret = true := hret
      exact ih arg' hiter' hloop

theorem completes_foreachBuckets
    (hfn : ∀ arg key value table, Iterating h level table →
      Returns functions h level (fn arg key value table))
    (left : ℕ) (arg : σ) (hiter : Iterating h level table) :
    Completes functions h level (HashTable.foreachBuckets fn left arg table) := by
  induction left generalizing arg table with
  | zero => exact fun _ => ⟨arg, table, rfl, hiter⟩
  | succ left ih =>
    rw [HashTable.foreachBuckets]
    intro hsafe
    rw [safe_bind] at hsafe
    obtain ⟨hchain, hrest⟩ := hsafe
    obtain ⟨arg', table', hvalue, hiter'⟩ := completes_foreachChain hfn _ _ arg hiter hchain
    rw [hvalue] at hrest
    rw [value_bind, hvalue]
    exact ih arg' hiter' hrest

/-! ### Iterations within iterations -/

/-- An orderly iteration leaves no pair to be removed if it is the last one. -/
theorem completes_foreach
    (hfn : ∀ arg key value table, Iterating h (level + 1) table →
      Returns functions h (level + 1) (fn arg key value table))
    (arg : σ) (hiter : Iterating h level table)
    (hsafe : (table.foreach fn arg).Safe (ForeachEvent.Orderly functions)) :
    ∃ arg' table', (table.foreach fn arg).value = some (true, arg', table') ∧
      Iterating h level table' ∧ (level = 0 → countMarked true table'.pairs = 0) := by
  have hinner : Iterating h (level + 1)
      { table with foreachRecursionLevel := table.foreachRecursionLevel + 1 } := by
    rw [hiter.foreachRecursionLevel]
    exact hiter.setLevel (level + 1)
  unfold HashTable.foreach at hsafe ⊢
  rw [safe_bind] at hsafe
  obtain ⟨arg', table₁, hvalue, hiter₁⟩ := completes_foreachBuckets hfn _ arg hinner hsafe.1
  have hiter₂ := hiter₁.setLevel level
  have hlevel₁ : table₁.foreachRecursionLevel - 1 = level := by
    rw [hiter₁.foreachRecursionLevel, Nat.add_sub_cancel]
  rw [value_bind, hvalue]
  dsimp only
  rw [hlevel₁]
  by_cases hpurge : level = 0 ∧ table₁.pendingRemoves % 2 ^ 32 ≠ 0
  · rw [if_pos hpurge]
    obtain ⟨hiter₃, hnone⟩ := hiter₂.purge
    exact ⟨arg', _, rfl, hiter₃, fun _ => hnone⟩
  · rw [if_neg hpurge]
    refine ⟨arg', _, rfl, hiter₂, fun hzero => ?_⟩
    -- nothing is pending, and there are too few pairs for the counter to have wrapped around
    have hpending : table₁.pendingRemoves % 2 ^ 32 = 0 := not_not.mp fun hne => hpurge ⟨hzero, hne⟩
    have hle := countMarked_le_card true table₁.pairs
    have hlt := hiter₁.pairs_lt
    rw [hiter₁.pendingRemoves] at hpending
    show countMarked true table₁.pairs = 0
    omega

theorem returns_run (callback : Callback K V σ) (hiter : Iterating h (level + 1) table) :
    Returns functions h (level + 1) (callback.run functions table) := by
  induction callback generalizing level table with
  | ret status arg => exact fun _ => ⟨status, arg, table, rfl, hiter⟩
  | call tableCall calls next ih =>
    intro hsafe
    rw [Callback.run, safe_bind, safe_access] at hsafe
    obtain ⟨horderly, hrest⟩ := hsafe
    obtain ⟨answer, table', hcall, hiter'⟩ := hiter.call horderly
    rw [Callback.run, value_bind]
    rw [hcall] at hrest ⊢
    exact ih answer hiter' hrest
  | foreach fn arg next ihfn ihnext =>
    intro hsafe
    rw [Callback.run, safe_bind] at hsafe
    obtain ⟨hforeach, hrest⟩ := hsafe
    obtain ⟨arg', table', hvalue, hiter', -⟩ := completes_foreach
      (fun arg key value table htable => ihfn arg key value htable) arg hiter hforeach
    rw [Callback.run, value_bind]
    rw [hvalue] at hrest ⊢
    exact ihnext true arg' hiter' hrest

/-! ### The table behind the iteration -/

/-- The table is a finite map, from which it answers, and no iteration is in progress. -/
structure Consistent (h : functions.Lawful) (table : HashTable K V) (m : h.Map) : Prop where
  refines : Refines h table m
  pendingRemoves : table.pendingRemoves = 0
  contains : ∀ key, table.contains functions key = decide (h.classOf key ∈ m)

omit [Inhabited K] [Inhabited V] [DecidableEq K] [DecidableEq V] in
theorem Iterating.refines (hiter : Iterating h 0 table) (hnone : countMarked true table.pairs = 0) :
    ∃ m : h.Map, Refines h table m := by
  have hdistinct : ((table.pairs.map h.entry).map Sigma.fst).Nodup := by
    rw [Multiset.map_map]
    exact hiter.distinct
  have hlive : ∀ pair ∈ table.pairs, pair.markedForRemove = false := fun pair hpair =>
    Bool.eq_false_of_not_eq_true (Multiset.countP_eq_zero.mp hnone pair hpair)
  refine ⟨⟨table.pairs.map h.entry, Multiset.nodup_keys.mp hdistinct⟩, rfl, hiter.placed, ?_,
    hiter.numOfBuckets_pos, hlive, hiter.foreachRecursionLevel⟩
  rw [hiter.numOfElements, card_keys, Multiset.card_map, countMarked, Multiset.countP_eq_card.mpr hlive]

omit [Inhabited K] [Inhabited V] [DecidableEq K] [DecidableEq V] in
theorem Refines.iterating {m : h.Map} (href : Refines h table m) (hpending : table.pendingRemoves = 0)
    (hcard : m.keys.card < 2 ^ 31) : Iterating h 0 table := by
  have hcount : table.pairs.card = m.keys.card := by
    rw [card_keys, ← href.entries, Multiset.card_map]
  refine ⟨?_, href.placed, href.numOfBuckets_pos, ?_, ?_, hcount ▸ hcard, href.foreachRecursionLevel⟩
  · have hkeys := m.nodupKeys.nodup_keys
    rw [← href.entries, Multiset.keys, Multiset.map_map] at hkeys
    exact hkeys
  · rw [href.numOfElements, ← hcount, countMarked, Multiset.countP_eq_card.mpr href.live]
  · rw [hpending, countMarked, Multiset.countP_eq_zero.mpr fun pair hpair => ?_]
    · rfl
    · rw [href.live pair hpair]
      exact Bool.false_ne_true

/-- The iteration returns, and leaves a consistent table. -/
def LeavesConsistent (h : functions.Lawful) (fn : σ → K → V → Callback K V σ) (arg : σ)
    (table : HashTable K V) : Prop :=
  ∃ ret arg' table',
    (table.foreach (fun arg key value table => (fn arg key value).run functions table) arg).value =
      some (ret, arg', table') ∧
    ∃ m : h.Map, Consistent h table' m

/-- If the callbacks are orderly, `HashTable_Foreach` returns and leaves a consistent table. -/
theorem foreach_consistent (h : functions.Lawful) {m : h.Map} (hconsistent : Consistent h table m)
    (hcard : m.keys.card < 2 ^ 31) (fn : σ → K → V → Callback K V σ) (arg : σ)
    (horderly : (table.foreach (fun arg key value table => (fn arg key value).run functions table)
      arg).Safe (ForeachEvent.Orderly functions)) :
    LeavesConsistent h fn arg table := by
  have hiter := hconsistent.refines.iterating hconsistent.pendingRemoves hcard
  obtain ⟨arg', table', hvalue, hiter', hnone⟩ := completes_foreach
    (fun arg key value table htable => returns_run (fn arg key value) htable) arg hiter horderly
  obtain ⟨m', href⟩ := hiter'.refines (hnone rfl)
  refine ⟨true, arg', table', hvalue, m', href, ?_, href.contains⟩
  rw [hiter'.pendingRemoves, hnone rfl]
  rfl

/-- Memory for whatever a call needs. -/
def memory : Calls ℕ ℕ := ⟨0, 0, true, true⟩

def oneNumber : HashTable ℕ ℕ := (hashTableNew.add numberFunctions memory 7 1).2

theorem consistent_oneNumber :
    Consistent numberFunctions_lawful oneNumber
      ((∅ : numberFunctions_lawful.Map).insert (numberFunctions_lawful.classOf 7) 1) := by
  have hadds : Adds numberFunctions_lawful memory 7 1 ∅ := by decide
  have hclone : ClonesKey numberFunctions memory 7 := fun hclone => absurd hclone Bool.false_ne_true
  have hcard : Adds numberFunctions_lawful memory 7 1 ∅ →
      ((∅ : numberFunctions_lawful.Map).insert (numberFunctions_lawful.classOf 7)
        (keptValue numberFunctions memory 1)).keys.card < 2 ^ 31 := fun _ => by decide
  have href := (refines_new (h := numberFunctions_lawful)).add hclone hcard
  rw [if_pos hadds] at href
  exact ⟨href.2, rfl, href.2.contains⟩

/-- The callback removes its key. -/
theorem foreach_consistent_remove :
    LeavesConsistent numberFunctions_lawful
      (fun (_ : Unit) key _ => .call (.remove key) memory fun _ => .ret true ()) () oneNumber := by
  refine foreach_consistent numberFunctions_lawful consistent_oneNumber (by decide) _ () ?_
  refine List.forall_mem_cons.mpr ⟨?_, List.forall_mem_singleton.mpr rfl⟩
  intro pair hpair
  cases hpair
  rfl

/-- A callback that returns `FALSE`, one that removes its key twice, and one that clears the table. -/
theorem not_foreach_consistent :
    ¬ LeavesConsistent numberFunctions_lawful (fun (_ : Unit) _ _ => .ret false ()) () oneNumber ∧
      ¬ LeavesConsistent numberFunctions_lawful
        (fun (_ : Unit) key _ => .call (.remove key) memory fun _ =>
          .call (.remove key) memory fun _ => .ret true ()) () oneNumber ∧
      ¬ LeavesConsistent numberFunctions_lawful
        (fun (_ : Unit) _ _ => .call .clear memory fun _ => .ret true ()) () oneNumber := by
  refine ⟨?_, ?_, ?_⟩
  · -- the iteration still counts
    rintro ⟨ret, arg, table, hvalue, m, hconsistent⟩
    cases hvalue
    exact absurd hconsistent.refines.foreachRecursionLevel (by decide)
  · -- the number of elements is -1
    rintro ⟨ret, arg, table, hvalue, m, hconsistent⟩
    cases hvalue
    have hcount : (-1 : ℤ) = m.keys.card := hconsistent.refines.numOfElements
    omega
  · rintro ⟨ret, arg, table, hvalue, -⟩
    cases hvalue

end FreeRDP.Collections
