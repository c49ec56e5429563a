import FreeRDP.Lib.Buckets
import Mathlib.Data.Nat.Prime.Basic
import Mathlib.Data.Nat.Prime.Infinite

/-!
# Hash tables

`HashTable.c` of `winpr/libwinpr/utils/collections`, with the chains as lists and the array of buckets as
a function of the index.  `default` is `NULL`.  What `keyFree` and `valueFree` release is left out, and
so is the lock; `HashTable_Foreach` only shows in `foreachRecursionLevel`.
-/

namespace FreeRDP.Collections

open Buckets

variable {K V : Type}

/-- `wKeyValuePair`. -/
structure KeyValuePair (K V : Type) where
  key : K
  value : V
  markedForRemove : Bool

/-- The fields of `wHashTable` that are set before the first use: the functions for keys and values, and
whether there are functions that clone them.

`tooFull` and `tooSparse` compare the numbers of elements and of buckets with `upperRehashThreshold`
and `lowerRehashThreshold`; they also say whether these are in use.  `idealRatio` is without its
fraction, and 3 in a new table. -/
structure HashTableFunctions (K V : Type) where
  hash : K → UInt32
  keyCompare : K → K → Bool
  valueCompare : V → V → Bool
  keyClone : Bool
  valueClone : Bool
  idealRatio : ℕ
  idealRatio_pos : 0 < idealRatio
  tooFull : ℤ → ℕ → Bool
  tooSparse : ℤ → ℕ → Bool

/-- The other fields of `wHashTable`. -/
structure HashTable (K V : Type) where
  numOfBuckets : ℕ
  numOfElements : ℤ
  bucketArray : ℕ → List (KeyValuePair K V)
  foreachRecursionLevel : ℕ
  pendingRemoves : ℤ

/-- What the functions give that a call has to call: the clones of its key and its value, and whether
`malloc` and `calloc` give memory. -/
structure Calls (K V : Type) where
  keyClone : K
  valueClone : V
  malloc : Bool
  calloc : Bool

def hashTableNew : HashTable K V where
  numOfBuckets := 64
  numOfElements := 0
  bucketArray _ := []
  foreachRecursionLevel := 0
  pendingRemoves := 0

/-! ### The number of buckets -/

/-- The loop of `HashTable_IsProbablePrime`, for the divisors in the list. -/
def hasNoDivisor (oddNumber : ℕ) : List ℕ → Bool
  | [] => true
  | i :: is =>
    if oddNumber = i then true else if oddNumber % i = 0 then false else hasNoDivisor oddNumber is

/-- `HashTable_IsProbablePrime`. -/
def isProbablePrime (oddNumber : ℕ) : Bool :=
  hasNoDivisor oddNumber ((List.range 24).map fun i => 2 * i + 3)

theorem hasNoDivisor_of_prime {p : ℕ} (hp : p.Prime) {is : List ℕ} (his : ∀ i ∈ is, 1 < i) :
    hasNoDivisor p is = true := by
  induction is with
  | nil => rfl
  | cons i is ih =>
    have hrest := ih fun j hj => his j (List.mem_cons_of_mem _ hj)
    rw [hasNoDivisor]
    by_cases heq : p = i
    · rw [if_pos heq]
    · have hmod : p % i ≠ 0 := by
        intro hzero
        have hi := his i List.mem_cons_self
        obtain hone | hself := (Nat.dvd_prime hp).mp (Nat.dvd_of_mod_eq_zero hzero)
        · omega
        · exact heq hself.symm
      rw [if_neg heq, if_neg hmod, hrest]

theorem isProbablePrime_of_prime {p : ℕ} (hp : p.Prime) : isProbablePrime p = true :=
  hasNoDivisor_of_prime hp (by simp)

theorem exists_odd_prime (n : ℕ) : ∃ p, n ≤ p ∧ p.Prime ∧ p % 2 = 1 := by
  obtain ⟨p, hle, hp⟩ := Nat.exists_infinite_primes (n + 3)
  exact ⟨p, by omega, hp, hp.eq_two_or_odd.resolve_left (by omega)⟩

/-- The loop of `HashTable_CalculateIdealNumOfBuckets`, which ends at a prime at the latest. -/
def nextProbablePrime (idealNumOfBuckets : ℕ) (h : idealNumOfBuckets % 2 = 1) : ℕ :=
  if isProbablePrime idealNumOfBuckets then idealNumOfBuckets
  else nextProbablePrime (idealNumOfBuckets + 2) (by omega)
termination_by Nat.find (exists_odd_prime idealNumOfBuckets) - idealNumOfBuckets
decreasing_by
  rename_i hnot
  obtain ⟨hle, hprime, hodd⟩ := Nat.find_spec (exists_odd_prime idealNumOfBuckets)
  -- the next prime is not where the loop is, and stays the next one
  have hne : Nat.find (exists_odd_prime idealNumOfBuckets) ≠ idealNumOfBuckets := by
    intro heq
    exact hnot (heq ▸ isProbablePrime_of_prime hprime)
  have hnext := Nat.find_min' (exists_odd_prime (idealNumOfBuckets + 2))
    ⟨by omega, hprime, hodd⟩
  omega

def calculateIdealNumOfBuckets (functions : HashTableFunctions K V) (numOfElements : ℤ) : ℕ :=
  let idealNumOfBuckets := (numOfElements.tdiv functions.idealRatio).toNat
  if idealNumOfBuckets < 5 then 5
  else nextProbablePrime (idealNumOfBuckets ||| 1) (Nat.or_mod_two_eq_one.mpr (Or.inr rfl))

namespace HashTable

def bucketOf (functions : HashTableFunctions K V) (numOfBuckets : ℕ) (key : K) : ℕ :=
  (functions.hash key).toNat % numOfBuckets

/-- `HashTable_Rehash`; `calloc` says whether there is memory for the new array. -/
def rehash (functions : HashTableFunctions K V) (calloc : Bool) (numOfBuckets : ℕ)
    (table : HashTable K V) : HashTable K V :=
  let numOfBuckets :=
    if numOfBuckets = 0 then calculateIdealNumOfBuckets functions table.numOfElements
    else numOfBuckets
  if numOfBuckets = table.numOfBuckets then table
  else if ¬ calloc then table
  else { table with
    bucketArray := distribute (fun pair => bucketOf functions numOfBuckets pair.key)
      table.numOfBuckets table.bucketArray
    numOfBuckets := numOfBuckets }

/-! ### Pairs -/

/-- A walk along a chain: the pairs in front of the one with the key, and the chain from it on. -/
def walk (functions : HashTableFunctions K V) (key : K) (chain : List (KeyValuePair K V)) :
    List (KeyValuePair K V) × List (KeyValuePair K V) :=
  chain.span fun pair => !functions.keyCompare key pair.key

def get (functions : HashTableFunctions K V) (key : K) (table : HashTable K V) :
    Option (KeyValuePair K V) :=
  (walk functions key (table.bucketArray (bucketOf functions table.numOfBuckets key))).2.head?

def setBucket (table : HashTable K V) (index : ℕ) (chain : List (KeyValuePair K V)) :
    HashTable K V := { table with bucketArray := Function.update table.bucketArray index chain }

/-- `numOfElements` is changed by `n`. -/
def addElements (table : HashTable K V) (n : ℤ) : HashTable K V :=
  { table with numOfElements := (table.numOfElements + n).bmod (2 ^ 32) }

def count (table : HashTable K V) : ℤ := table.numOfElements

variable [Inhabited K] [Inhabited V] [DecidableEq K] [DecidableEq V]

def add (functions : HashTableFunctions K V) (calls : Calls K V) (key : K) (value : V)
    (table : HashTable K V) : ℤ × HashTable K V :=
  if key = default ∨ value = default then (-1, table)
  else
    let key := if functions.keyClone then calls.keyClone else key
    if key = default then (-1, table)
    else
      let value := if functions.valueClone then calls.valueClone else value
      if value = default then (-1, table)
      else
        let hashValue := bucketOf functions table.numOfBuckets key
        match walk functions key (table.bucketArray hashValue) with
        | (front, pair :: rest) =>
          -- an entry that was to be removed is recycled
          let recycled := if pair.markedForRemove then
              { table.addElements 1 with pendingRemoves := table.pendingRemoves - 1 }
            else table
          (0, recycled.setBucket hashValue (front ++ ⟨key, value, false⟩ :: rest))
        | (_, []) =>
          if ¬ calls.malloc then (-1, table)
          else
            let table := (table.setBucket hashValue
              (⟨key, value, false⟩ :: table.bucketArray hashValue)).addElements 1
            (0,
              if table.foreachRecursionLevel = 0 ∧
                  functions.tooFull table.numOfElements table.numOfBuckets = true then
                table.rehash functions calls.calloc 0
              else table)

def remove (functions : HashTableFunctions K V) (calls : Calls K V) (key : K)
    (table : HashTable K V) : Bool × HashTable K V :=
  let hashValue := bucketOf functions table.numOfBuckets key
  match walk functions key (table.bucketArray hashValue) with
  | (_, []) => (false, table)
  | (front, pair :: rest) =>
    if table.foreachRecursionLevel ≠ 0 then
      (true, { (table.addElements (-1)).setBucket hashValue
          (front ++ { pair with markedForRemove := true } :: rest) with
        pendingRemoves := table.pendingRemoves + 1 })
    else
      let table := (table.setBucket hashValue (front ++ rest)).addElements (-1)
      (true,
        if functions.tooSparse table.numOfElements table.numOfBuckets then
          table.rehash functions calls.calloc 0
        else table)

def getItemValue (functions : HashTableFunctions K V) (key : K) (table : HashTable K V) : V :=
  match table.get functions key with
  | some pair => if ¬ pair.markedForRemove then pair.value else default
  | none => default

def setItemValue (functions : HashTableFunctions K V) (calls : Calls K V) (key : K) (value : V)
    (table : HashTable K V) : Bool × HashTable K V :=
  if functions.valueClone ∧ value ≠ default ∧ calls.valueClone = default then (false, table)
  else
    let value := if functions.valueClone ∧ value ≠ default then calls.valueClone else value
    let hashValue := bucketOf functions table.numOfBuckets key
    match walk functions key (table.bucketArray hashValue) with
    | (_, []) => (false, table)
    | (front, pair :: rest) =>
      if pair.markedForRemove then (false, table)
      else (true, table.setBucket hashValue (front ++ { pair with value := value } :: rest))

/-- `HashTable_Clear`.  In a `HashTable_Foreach` the loop does not get past a pair. -/
def clear (functions : HashTableFunctions K V) (calls : Calls K V) (table : HashTable K V) :
    Option (HashTable K V) :=
  if table.foreachRecursionLevel ≠ 0 ∧
      (List.range table.numOfBuckets).any fun index => table.bucketArray index ≠ [] then none
  else
    let table := { table with
      bucketArray := fun index =>
        if index < table.numOfBuckets then [] else table.bucketArray index
      numOfElements := 0 }
    some (if table.foreachRecursionLevel = 0 then table.rehash functions calls.calloc 5 else table)

/-- `HashTable_GetKeys`, with the array of keys.  There is no memory for more keys than
`numOfElements` says. -/
def getKeys (calls : Calls K V) (table : HashTable K V) : Option (ℤ × List K) :=
  if table.numOfElements < 1 then some (0, [])
  else if ¬ calls.calloc then some (-1, [])
  else
    let keys := (((List.range table.numOfBuckets).flatMap table.bucketArray).filter fun pair =>
      !pair.markedForRemove).map KeyValuePair.key
    if (keys.length : ℤ) ≤ table.numOfElements then
      some (table.numOfElements,
        keys ++ List.replicate (table.numOfElements.toNat - keys.length) default)
    else none

def contains (functions : HashTableFunctions K V) (key : K) (table : HashTable K V) : Bool :=
  (table.get functions key).any fun pair => !pair.markedForRemove

def containsKey (functions : HashTableFunctions K V) (key : K) (table : HashTable K V) : Bool :=
  (table.get functions key).any fun pair => !pair.markedForRemove

def containsValue (functions : HashTableFunctions K V) (value : V) (table : HashTable K V) : Bool :=
  (List.range table.numOfBuckets).any fun index => (table.bucketArray index).any fun pair =>
    !pair.markedForRemove && functions.valueCompare value pair.value

end HashTable

end FreeRDP.Collections
