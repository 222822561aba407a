import Mathlib.Data.Finmap
import WarringServer.Lib.Collection
import WarringServer.Lib.Run

/-!
# The hash map with one lock per bucket

`SafeHashmap` is a vector of buckets, addressed by the hash modulo a size that is kept
apart from the vector; a `Bucket` is a list of pairs that is searched before each write.
Every operation holds the lock of its bucket, so the model is sequential.

* `Bucket.find_insert`, `Bucket.find_insertOrAssign`, `Bucket.find_erase` — what an
  operation on a bucket does to every lookup;
* `Agrees` — a map and a finite map give the same answers;
* `safeHashmap_agrees_iff` — when they do so throughout a run.

Two things go wrong. A map that is asked for 0 buckets takes 1031 for its size and
gets none, so every access is out of range; and `insertOrAssign` calls the `insert` of
the bucket, which keeps an old value.
-/

namespace WarringServer.Utility

-- ---------------------------------------------------------------------------
-- Buckets
-- ---------------------------------------------------------------------------

/-- `mData` holds a key once. -/
structure Bucket (Key Value : Type*) where
  mData : List (Key × Value)
  nodup : (mData.map Prod.fst).Nodup

namespace Bucket

variable {Key Value : Type*}

def new : Bucket Key Value := ⟨[], List.nodup_nil⟩

def size (b : Bucket Key Value) : Nat := b.mData.length

/-- The values `func` is called with, in order. -/
def readAll (b : Bucket Key Value) : List Value := b.mData.map Prod.snd

variable [DecidableEq Key]

/-- The predicate of the `find_if` that each operation starts with. -/
def isNode (key : Key) (node : Key × Value) : Bool := node.1 = key

/-- `none` is `false`, and the out parameter as it was. The second overload returns a copy
of the value it finds. -/
def find (b : Bucket Key Value) (key : Key) : Option Value :=
  (b.mData.find? (isNode key)).map Prod.snd

theorem find_eq_some_iff {b : Bucket Key Value} {key : Key} {value : Value} :
    b.find key = some value ↔ (key, value) ∈ b.mData := by
  constructor
  · intro h
    obtain ⟨⟨k, v⟩, hFound, rfl⟩ := Option.map_eq_some_iff.mp h
    obtain rfl : k = key := by simpa [isNode] using List.find?_some hFound
    exact List.mem_of_find?_eq_some hFound
  · intro h
    cases hFound : b.mData.find? (isNode key) with
    | none => simpa [isNode] using Collection.none_of_find hFound _ h
    | some node =>
      -- two nodes of one key are one node
      obtain ⟨k, v⟩ := node
      obtain rfl : k = key := by simpa [isNode] using List.find?_some hFound
      have hMem := List.mem_of_find?_eq_some hFound
      have hEq := List.inj_on_of_nodup_map b.nodup hMem h rfl
      rw [find, hFound, Option.map_some, (Prod.mk.inj hEq).2]

theorem find_eq_none_iff {b : Bucket Key Value} {key : Key} :
    b.find key = none ↔ key ∉ b.mData.map Prod.fst := by
  simp only [Option.eq_none_iff_forall_ne_some, ne_eq, find_eq_some_iff]
  simp

/-- The nodes settle every lookup. -/
theorem find_congr {b b' : Bucket Key Value} {key : Key}
    (h : ∀ value, (key, value) ∈ b'.mData ↔ (key, value) ∈ b.mData) :
    b'.find key = b.find key :=
  Option.ext fun value => by
    rw [find_eq_some_iff, find_eq_some_iff, h value]

/-- `push_back` of a pair whose key is not there yet. -/
def pushBack (b : Bucket Key Value) (key : Key) (value : Value) (h : b.find key = none) :
    Bucket Key Value where
  mData := b.mData ++ [(key, value)]
  nodup := by
    rw [List.map_append, List.map_singleton, List.nodup_append]
    refine ⟨b.nodup, List.nodup_singleton key, ?_⟩
    intro k hk k' hk' hEq
    obtain rfl := List.mem_singleton.mp hk'
    exact find_eq_none_iff.mp h (hEq ▸ hk)

def insert (b : Bucket Key Value) (key : Key) (value : Value) : Bucket Key Value :=
  if h : b.find key = none then b.pushBack key value h else b

/-- `it->second = value` -/
def assign (b : Bucket Key Value) (key : Key) (value : Value) : Bucket Key Value where
  mData := Collection.updateFirst (isNode key) (fun node => (node.1, value)) b.mData
  nodup := by
    rw [Collection.map_updateFirst (u := fun node => (node.1, value)) fun _ _ => rfl]
    exact b.nodup

/-- Nothing calls it: `SafeHashmap::insertOrAssign` calls `insert`. -/
def insertOrAssign (b : Bucket Key Value) (key : Key) (value : Value) : Bucket Key Value :=
  if h : b.find key = none then b.pushBack key value h else b.assign key value

def erase (b : Bucket Key Value) (key : Key) : Bucket Key Value where
  mData := b.mData.eraseP (isNode key)
  nodup := b.nodup.sublist (List.eraseP_sublist.map Prod.fst)

theorem find_pushBack {b : Bucket Key Value} {key : Key} {value : Value}
    (h : b.find key = none) (k : Key) :
    (b.pushBack key value h).find k = if k = key then some value else b.find k := by
  by_cases hk : k = key
  · subst hk
    rw [if_pos rfl, find_eq_some_iff]
    exact List.mem_append_right _ (List.mem_singleton_self _)
  · rw [if_neg hk]
    refine find_congr ?_
    intro v
    simp [pushBack, hk]

/-- **`insert` keeps an old value.** -/
theorem find_insert (b : Bucket Key Value) (key : Key) (value : Value) (k : Key) :
    (b.insert key value).find k = if k = key then some ((b.find key).getD value) else b.find k := by
  unfold insert
  split
  · rename_i h
    rw [find_pushBack h, h, Option.getD_none]
  · rename_i h
    obtain ⟨old, hOld⟩ := Option.ne_none_iff_exists'.mp h
    split
    · rename_i hk
      rw [hk, hOld, Option.getD_some]
    · rfl

theorem find_assign {b : Bucket Key Value} {key : Key} {value : Value} (h : b.find key ≠ none)
    (k : Key) : (b.assign key value).find k = if k = key then some value else b.find k := by
  have hKeep : ∀ node : Key × Value, isNode key node = true →
      isNode key (node.1, value) = true := fun _ h => h
  rw [find, find, assign]
  by_cases hk : k = key
  · subst hk
    obtain ⟨old, hOld⟩ := Option.ne_none_iff_exists'.mp h
    obtain ⟨node, hNode, -⟩ := Option.map_eq_some_iff.mp hOld
    rw [if_pos rfl, Collection.find_updateFirst hKeep, hNode]
    rfl
  · rw [if_neg hk, Collection.find_updateFirst_of_apart]
    intro node hNode
    have hKey : node.1 = key := by simpa [isNode] using hNode
    simp [isNode, hKey, Ne.symm hk]

/-- **`insertOrAssign` overwrites it.** -/
theorem find_insertOrAssign (b : Bucket Key Value) (key : Key) (value : Value) (k : Key) :
    (b.insertOrAssign key value).find k = if k = key then some value else b.find k := by
  unfold insertOrAssign
  split
  · rename_i h
    exact find_pushBack h k
  · rename_i h
    exact find_assign h k

/-- Of the nodes with distinct keys, the first match is the only one. -/
theorem eraseP_eq_filter {data : List (Key × Value)} (h : (data.map Prod.fst).Nodup) (key : Key) :
    data.eraseP (isNode key) = data.filter fun node => !isNode key node := by
  induction data with
  | nil => rfl
  | cons node data ih =>
    rw [List.map_cons, List.nodup_cons] at h
    by_cases hNode : isNode key node = true
    · have hKey : node.1 = key := by simpa [isNode] using hNode
      rw [List.eraseP_cons_of_pos hNode, List.filter_cons_of_neg (by simp [hNode]), eq_comm,
        List.filter_eq_self]
      intro x hx
      have hOther : x.1 ≠ key := fun hEq => h.1 (hKey ▸ hEq ▸ List.mem_map_of_mem hx)
      simp [isNode, hOther]
    · rw [List.eraseP_cons_of_neg hNode, List.filter_cons_of_pos (by simp [hNode]), ih h.2]

/-- The key is gone, since it was there once. -/
theorem find_erase (b : Bucket Key Value) (key : Key) (k : Key) :
    (b.erase key).find k = if k = key then none else b.find k := by
  have hMem : ∀ v, (k, v) ∈ (b.erase key).mData ↔ (k, v) ∈ b.mData ∧ k ≠ key := by
    intro v
    show (k, v) ∈ b.mData.eraseP (isNode key) ↔ _
    rw [eraseP_eq_filter b.nodup, List.mem_filter]
    simp [isNode]
  refine Option.ext ?_
  intro v
  rw [find_eq_some_iff, hMem v]
  by_cases hk : k = key
  · simp [hk]
  · simp [hk, find_eq_some_iff]

end Bucket

-- ---------------------------------------------------------------------------
-- The table
-- ---------------------------------------------------------------------------

/-- `mHashtable` need not have `mBucketSize` buckets. A key is in the bucket of its hash. -/
structure SafeHashmap (Key Value : Type*) (mHashFunc : Key → Nat) where
  mBucketSize : Nat
  mHashtable : List (Bucket Key Value)
  home : ∀ index b, mHashtable[index]? = some b →
    ∀ node ∈ b.mData, mHashFunc node.1 % mBucketSize = index

namespace SafeHashmap

variable {Key Value : Type*} {mHashFunc : Key → Nat}

/-- The constructor: the loop that makes the buckets runs to `bucketNum`, not to
`mBucketSize`. -/
def new (mHashFunc : Key → Nat) (bucketNum : Nat) : SafeHashmap Key Value mHashFunc where
  mBucketSize := if bucketNum ≤ 0 then 1031 else bucketNum
  mHashtable := List.replicate bucketNum Bucket.new
  home := by
    intro index b hb node hNode
    rw [List.getElem?_replicate] at hb
    split at hb
    · obtain rfl := Option.some.inj hb
      exact absurd hNode List.not_mem_nil
    · cases hb

def index (m : SafeHashmap Key Value mHashFunc) (key : Key) : Nat := mHashFunc key % m.mBucketSize

def bucketSize (m : SafeHashmap Key Value mHashFunc) : Nat := m.mBucketSize

/-- The sum of the sizes, in an `int`; the conversion to `size_t` copies its sign. -/
def size (m : SafeHashmap Key Value mHashFunc) : Nat :=
  let res := m.mHashtable.foldl (fun res bucket => res + BitVec.ofNat 32 bucket.size) 0#32
  (res.signExtend 64).toNat

/-- The values `func` is called with, in order; `none` is `std::out_of_range`. -/
def readAll (m : SafeHashmap Key Value mHashFunc) (index : Nat) : Option (List Value) :=
  if index ≥ m.mBucketSize then some [] else m.mHashtable[index]?.map Bucket.readAll

/-- The stored pairs, bucket by bucket. -/
def entries (m : SafeHashmap Key Value mHashFunc) : List (Key × Value) :=
  m.mHashtable.flatMap Bucket.mData

/-- A key occurs once in its bucket, and in no other one. -/
theorem nodup_entries (m : SafeHashmap Key Value mHashFunc) : (m.entries.map Prod.fst).Nodup := by
  rw [entries, List.map_flatMap, List.nodup_flatMap]
  refine ⟨fun b _ => b.nodup, List.pairwise_iff_getElem.mpr ?_⟩
  intro i j hi hj hij k hki hkj
  obtain ⟨⟨_, v⟩, hNode, rfl⟩ := List.mem_map.mp hki
  obtain ⟨⟨_, v'⟩, hNode', hKey⟩ := List.mem_map.mp hkj
  have hHome := m.home i _ (List.getElem?_eq_getElem hi) _ hNode
  have hHome' := m.home j _ (List.getElem?_eq_getElem hj) _ hNode'
  dsimp only at hHome hHome' hKey
  rw [hKey] at hHome'
  omega

variable [DecidableEq Key]

/-- `none` is `std::out_of_range`. -/
def find (m : SafeHashmap Key Value mHashFunc) (key : Key) : Option (Option Value) :=
  m.mHashtable[m.index key]?.map fun bucket => bucket.find key

/-- The bucket of `key` after an operation that touches no other key. -/
def modify (m : SafeHashmap Key Value mHashFunc) (key : Key)
    (op : Bucket Key Value → Bucket Key Value)
    (hOp : ∀ b k, k ≠ key → (op b).find k = b.find k) : SafeHashmap Key Value mHashFunc where
  mBucketSize := m.mBucketSize
  mHashtable := m.mHashtable.modify (m.index key) op
  home := by
    intro i b' hb' node hNode
    rw [List.getElem?_modify] at hb'
    obtain ⟨b, hb, rfl⟩ := Option.map_eq_some_iff.mp hb'
    by_cases hi : m.index key = i
    · rw [if_pos hi] at hNode
      by_cases hKey : node.1 = key
      · rw [hKey]
        exact hi
      · -- an old node of the bucket
        have hFound : (op b).find node.1 = some node.2 := Bucket.find_eq_some_iff.mpr hNode
        rw [hOp b node.1 hKey] at hFound
        exact m.home i b hb _ (Bucket.find_eq_some_iff.mp hFound)
    · rw [if_neg hi] at hNode
      exact m.home i b hb node hNode

/-- `mHashtable.at(mHashFunc(key) % mBucketSize)->op(..)` -/
def modifyAt (m : SafeHashmap Key Value mHashFunc) (key : Key)
    (op : Bucket Key Value → Bucket Key Value)
    (hOp : ∀ b k, k ≠ key → (op b).find k = b.find k) :
    Option (SafeHashmap Key Value mHashFunc) :=
  if m.index key < m.mHashtable.length then some (m.modify key op hOp) else none

def insert (m : SafeHashmap Key Value mHashFunc) (key : Key) (value : Value) :
    Option (SafeHashmap Key Value mHashFunc) :=
  m.modifyAt key (fun b => b.insert key value) fun b k hk => by
    rw [Bucket.find_insert, if_neg hk]

/-- It calls `insert`, as `SafeHashmap::insert` does. -/
def insertOrAssign (m : SafeHashmap Key Value mHashFunc) (key : Key) (value : Value) :
    Option (SafeHashmap Key Value mHashFunc) :=
  m.modifyAt key (fun b => b.insert key value) fun b k hk => by
    rw [Bucket.find_insert, if_neg hk]

def erase (m : SafeHashmap Key Value mHashFunc) (key : Key) :
    Option (SafeHashmap Key Value mHashFunc) :=
  m.modifyAt key (fun b => b.erase key) fun b k hk => by
    rw [Bucket.find_erase, if_neg hk]

/-- One operation changes the lookup of its own key only. -/
theorem find_modify (m : SafeHashmap Key Value mHashFunc) (key : Key)
    (op : Bucket Key Value → Bucket Key Value)
    (hOp : ∀ b k, k ≠ key → (op b).find k = b.find k) (k : Key) : (m.modify key op hOp).find k =
      if k = key then m.mHashtable[m.index key]?.map fun b => (op b).find key else m.find k := by
  show Option.map _ (m.mHashtable.modify (m.index key) op)[m.index k]? = _
  rw [List.getElem?_modify, Option.map_eq_map, Option.map_map]
  by_cases hk : k = key
  · subst hk
    simp only [↓reduceIte, Function.comp_def]
  · rw [if_neg hk]
    refine Option.map_congr ?_
    intro b _
    show (if m.index key = m.index k then op b else b).find k = b.find k
    split
    · exact hOp b k hk
    · rfl

theorem mem_entries_iff {m : SafeHashmap Key Value mHashFunc} {key : Key} {value : Value} :
    (key, value) ∈ m.entries ↔ m.find key = some (some value) := by
  rw [entries, List.mem_flatMap, find, Option.map_eq_some_iff]
  constructor
  · rintro ⟨b, hb, hNode⟩
    obtain ⟨i, hi⟩ := List.getElem?_of_mem hb
    have hIndex : m.index key = i := m.home i b hi _ hNode
    exact ⟨b, hIndex ▸ hi, Bucket.find_eq_some_iff.mpr hNode⟩
  · rintro ⟨b, hb, hFound⟩
    exact ⟨b, List.mem_of_getElem? hb, Bucket.find_eq_some_iff.mp hFound⟩

-- ---------------------------------------------------------------------------
-- Operations and their meaning on a finite map
-- ---------------------------------------------------------------------------

end SafeHashmap

inductive MapOp (Key Value : Type*) where
  | insert (key : Key) (value : Value)
  | insertOrAssign (key : Key) (value : Value)
  | erase (key : Key)

section

variable {Key Value : Type*} [DecidableEq Key] {mHashFunc : Key → Nat}

def SafeHashmap.exec (m : SafeHashmap Key Value mHashFunc) :
    MapOp Key Value → Option (SafeHashmap Key Value mHashFunc)
  | .insert key value => m.insert key value
  | .insertOrAssign key value => m.insertOrAssign key value
  | .erase key => m.erase key

/-- What the operation is on a finite map. -/
def MapOp.apply (s : Finmap fun _ : Key => Value) : MapOp Key Value → Finmap fun _ : Key => Value
  | .insert key value => if key ∈ s then s else s.insert key value
  | .insertOrAssign key value => s.insert key value
  | .erase key => s.erase key

def MapOp.key : MapOp Key Value → Key
  | .insert key _ => key
  | .insertOrAssign key _ => key
  | .erase key => key

/-- What `find` of its key gives after the operation, by what it gave before. -/
def MapOp.stored : MapOp Key Value → Option Value → Option Value
  | .insert _ value, old => some (old.getD value)
  | .insertOrAssign _ value, old => some (old.getD value)
  | .erase _, _ => none

/-- What it should give. -/
def MapOp.expected : MapOp Key Value → Option Value → Option Value
  | .insert _ value, old => some (old.getD value)
  | .insertOrAssign _ value, _ => some value
  | .erase _, _ => none

/-- A map, and the finite map that the same operations make. -/
structure MapPair (Key Value : Type*) (mHashFunc : Key → Nat) where
  map : SafeHashmap Key Value mHashFunc
  spec : Finmap fun _ : Key => Value

/-- An operation that throws leaves the map as it was. -/
def MapPair.step (s : MapPair Key Value mHashFunc) (op : MapOp Key Value) :
    MapPair Key Value mHashFunc :=
  ⟨(s.map.exec op).getD s.map, op.apply s.spec⟩

def MapPair.new (mHashFunc : Key → Nat) (bucketNum : Nat) : MapPair Key Value mHashFunc :=
  ⟨SafeHashmap.new mHashFunc bucketNum, ∅⟩

/-- No operation is out of range, and every question gets the answer of the finite map. -/
structure Agrees (s : MapPair Key Value mHashFunc) : Prop where
  inRange : ∀ op, (s.map.exec op).isSome
  find : ∀ key, s.map.find key = some (s.spec.lookup key)
  size : s.map.size = s.spec.keys.card
  /-- `readAll` over all buckets calls `func` once for each stored value. -/
  readAll : ∃ visits : List (List Value),
    (List.range s.map.bucketSize).map s.map.readAll = visits.map some ∧
    (visits.flatten : Multiset Value) = s.spec.entries.map Sigma.snd

/-- An overwritten value is replaced by itself, and the count of keys fits an `int`. -/
def Keeps (s : MapPair Key Value mHashFunc) (op : MapOp Key Value) : Prop :=
  (∀ key value, op = .insertOrAssign key value →
    s.spec.lookup key = none ∨ s.spec.lookup key = some value) ∧
  (op.apply s.spec).keys.card < 2 ^ 31

-- ---------------------------------------------------------------------------
-- Lookups
-- ---------------------------------------------------------------------------

/-- There are as many buckets as `mBucketSize` says, and at least one. -/
structure SafeHashmap.Sized (m : SafeHashmap Key Value mHashFunc) : Prop where
  pos : 0 < m.mBucketSize
  length : m.mHashtable.length = m.mBucketSize

namespace SafeHashmap

variable {m : SafeHashmap Key Value mHashFunc}

omit [DecidableEq Key] in
theorem mBucketSize_new {bucketNum : Nat} (h : bucketNum ≠ 0) :
    (new mHashFunc bucketNum : SafeHashmap Key Value mHashFunc).mBucketSize = bucketNum :=
  if_neg (by omega)

omit [DecidableEq Key] in
theorem sized_new {bucketNum : Nat} (h : bucketNum ≠ 0) :
    (new mHashFunc bucketNum : SafeHashmap Key Value mHashFunc).Sized where
  pos := by
    rw [mBucketSize_new h]
    omega
  length := by
    rw [mBucketSize_new h]
    exact List.length_replicate

omit [DecidableEq Key] in
theorem Sized.index_lt (h : m.Sized) (key : Key) : m.index key < m.mHashtable.length := by
  rw [h.length]
  exact Nat.mod_lt _ h.pos

/-- Nothing is found in a new map. -/
theorem find_new {bucketNum : Nat} (h : bucketNum ≠ 0) (key : Key) :
    (new mHashFunc bucketNum : SafeHashmap Key Value mHashFunc).find key = some none := by
  have hLt : (new mHashFunc bucketNum : SafeHashmap Key Value mHashFunc).index key < bucketNum := by
    rw [index, mBucketSize_new h]
    exact Nat.mod_lt _ (Nat.pos_of_ne_zero h)
  show Option.map _ (List.replicate bucketNum Bucket.new)[_]? = _
  rw [List.getElem?_replicate, if_pos hLt]
  rfl

theorem Sized.modify (h : m.Sized) (key : Key) (op : Bucket Key Value → Bucket Key Value)
    (hOp : ∀ b k, k ≠ key → (op b).find k = b.find k) : (m.modify key op hOp).Sized :=
  ⟨h.pos, by
    show (m.mHashtable.modify _ _).length = m.mBucketSize
    rw [List.length_modify, h.length]⟩

/-- **What an operation does to a map of the right size**: it is in range, and changes the
lookup of its own key only. -/
theorem Sized.exec (h : m.Sized) (op : MapOp Key Value) :
    ∃ m', m.exec op = some m' ∧ m'.Sized ∧
      ∀ k, m'.find k = if k = op.key then (m.find op.key).map op.stored else m.find k := by
  rcases op with ⟨key, value⟩ | ⟨key, value⟩ | ⟨key⟩
  all_goals
    refine ⟨_, if_pos (h.index_lt key), h.modify _ _ _, fun k => ?_⟩
    rw [find_modify]
    simp only [MapOp.key, find, Option.map_map, Bucket.find_insert, Bucket.find_erase, ↓reduceIte]
    rfl

end SafeHashmap

namespace MapOp

theorem lookup_apply (op : MapOp Key Value) (s : Finmap fun _ : Key => Value) (k : Key) :
    (op.apply s).lookup k = if k = op.key then op.expected (s.lookup op.key) else s.lookup k := by
  rcases op with ⟨key, value⟩ | ⟨key, value⟩ | ⟨key⟩
  · rw [apply, MapOp.key, expected]
    by_cases hMem : key ∈ s
    · obtain ⟨old, hOld⟩ := Finmap.mem_iff.mp hMem
      rw [if_pos hMem, hOld, Option.getD_some]
      split
      · rename_i hk
        rw [hk, hOld]
      · rfl
    · rw [if_neg hMem, Finmap.lookup_eq_none.mpr hMem, Option.getD_none]
      split
      · rename_i hk
        rw [hk, Finmap.lookup_insert]
      · rename_i hk
        exact Finmap.lookup_insert_of_ne s hk
  · rw [apply, MapOp.key, expected]
    split
    · rename_i hk
      rw [hk, Finmap.lookup_insert]
    · rename_i hk
      exact Finmap.lookup_insert_of_ne s hk
  · rw [apply, MapOp.key, expected]
    split
    · rename_i hk
      rw [hk, Finmap.lookup_erase]
    · rename_i hk
      exact Finmap.lookup_erase_ne hk

omit [DecidableEq Key] in
/-- `insertOrAssign` stores what it should if there is no other value to overwrite. -/
theorem stored_eq_expected_iff {op : MapOp Key Value} {old : Option Value} :
    op.stored old = op.expected old ↔
      ∀ key value, op = .insertOrAssign key value → old = none ∨ old = some value := by
  rcases op with ⟨key, value⟩ | ⟨key, value⟩ | ⟨key⟩
  · exact ⟨fun _ _ _ h => (nomatch h), fun _ => rfl⟩
  · constructor
    · rintro h _ _ ⟨⟩
      rcases old with _ | old
      · exact Or.inl rfl
      · exact Or.inr h
    · intro h
      rcases h key value rfl with rfl | rfl
      · rfl
      · rfl
  · exact ⟨fun _ _ _ h => (nomatch h), fun _ => rfl⟩

theorem card_apply_le (op : MapOp Key Value) (s : Finmap fun _ : Key => Value) :
    (op.apply s).keys.card ≤ s.keys.card + 1 := by
  -- the one new key is that of the operation
  refine (Finset.card_le_card ?_).trans (Finset.card_insert_le op.key s.keys)
  intro k hk
  rw [Finmap.mem_keys, ← Finmap.lookup_isSome, lookup_apply] at hk
  rw [Finset.mem_insert, Finmap.mem_keys, ← Finmap.lookup_isSome]
  by_cases hKey : k = op.key
  · exact Or.inl hKey
  · rw [if_neg hKey] at hk
    exact Or.inr hk

end MapOp

namespace MapPair

variable {s : MapPair Key Value mHashFunc}

/-- What the map finds in a step is right exactly if the value stored is. -/
theorem find_step_iff (hSized : s.map.Sized)
    (hFind : ∀ key, s.map.find key = some (s.spec.lookup key)) (op : MapOp Key Value) :
    (∀ key, (s.step op).map.find key = some ((s.step op).spec.lookup key)) ↔
      op.stored (s.spec.lookup op.key) = op.expected (s.spec.lookup op.key) := by
  obtain ⟨m', hExec, -, hFind'⟩ := hSized.exec op
  have hMap : (s.step op).map = m' := by rw [step, hExec, Option.getD_some]
  have hSpec : (s.step op).spec = op.apply s.spec := rfl
  rw [hMap, hSpec]
  constructor
  · intro h
    have hKey := h op.key
    rw [hFind', if_pos rfl, hFind, op.lookup_apply, if_pos rfl] at hKey
    exact Option.some.inj hKey
  · intro h key
    rw [hFind', op.lookup_apply]
    split
    · rw [hFind, Option.map_some, h]
    · exact hFind key

theorem sized_step (hSized : s.map.Sized) (op : MapOp Key Value) : (s.step op).map.Sized := by
  obtain ⟨m', hExec, hSized', -⟩ := hSized.exec op
  rw [step, hExec]
  exact hSized'

end MapPair

-- ---------------------------------------------------------------------------
-- Sizes and visits
-- ---------------------------------------------------------------------------

/-- The pairs of a map that finds what the finite map has are those of the finite map. -/
theorem entries_eq {m : SafeHashmap Key Value mHashFunc} {spec : Finmap fun _ : Key => Value}
    (h : ∀ key, m.find key = some (spec.lookup key)) :
    (m.entries : Multiset (Key × Value)) = spec.entries.map fun e => (e.1, e.2) := by
  have hInj : Function.Injective fun e : Σ _ : Key, Value => (e.1, e.2) := by
    rintro ⟨k, v⟩ ⟨k', v'⟩ hEq
    cases hEq
    rfl
  refine (Multiset.Nodup.ext (Multiset.coe_nodup.mpr (List.Nodup.of_map _ m.nodup_entries))
    (spec.nodup_entries.map hInj)).mpr ?_
  rintro ⟨k, v⟩
  rw [Multiset.mem_coe, SafeHashmap.mem_entries_iff, h, Option.some_inj,
    Finmap.lookup_eq_some_iff, Multiset.mem_map]
  constructor
  · exact fun hMem => ⟨⟨k, v⟩, hMem, rfl⟩
  · rintro ⟨e, hMem, hEq⟩
    obtain ⟨rfl, rfl⟩ := Prod.mk.inj hEq
    exact hMem

omit [DecidableEq Key] in
/-- The sum in the `int` is the count of pairs, up to the overflow. -/
theorem foldl_size (table : List (Bucket Key Value)) (res : BitVec 32) :
    table.foldl (fun res bucket => res + BitVec.ofNat 32 bucket.size) res =
      res + BitVec.ofNat 32 (table.flatMap Bucket.mData).length := by
  induction table generalizing res with
  | nil => simp
  | cons b table ih =>
    rw [List.foldl_cons, ih, List.flatMap_cons, List.length_append, BitVec.ofNat_add,
      BitVec.add_assoc, Bucket.size]

theorem toNat_signExtend_ofNat_eq_iff {n : Nat} (h : n ≤ 2 ^ 31) :
    ((BitVec.ofNat 32 n).signExtend 64).toNat = n ↔ n < 2 ^ 31 := by
  rw [BitVec.toNat_signExtend, BitVec.msb_eq_decide]
  simp only [BitVec.toNat_setWidth, BitVec.toNat_ofNat, decide_eq_true_eq]
  split
  · omega
  · omega

omit [DecidableEq Key] in
theorem size_eq_iff {m : SafeHashmap Key Value mHashFunc} (h : m.entries.length ≤ 2 ^ 31) :
    m.size = m.entries.length ↔ m.entries.length < 2 ^ 31 := by
  rw [SafeHashmap.size, foldl_size, BitVec.zero_add]
  exact toNat_signExtend_ofNat_eq_iff h

omit [DecidableEq Key] in
theorem readAll_buckets {m : SafeHashmap Key Value mHashFunc} (h : m.Sized) :
    (List.range m.bucketSize).map m.readAll = (m.mHashtable.map Bucket.readAll).map some := by
  refine List.ext_getElem (by simp [SafeHashmap.bucketSize, h.length]) ?_
  intro i hi _
  have hSize : i < m.mBucketSize := by simpa [SafeHashmap.bucketSize] using hi
  have hIndex : i < m.mHashtable.length := by rwa [h.length]
  simp [SafeHashmap.readAll, hSize, hIndex]

/-- **Agreement of a map of the right size**: the lookups, and the count of keys. -/
theorem agrees_iff {s : MapPair Key Value mHashFunc} (hSized : s.map.Sized)
    (hCard : s.spec.keys.card ≤ 2 ^ 31) : Agrees s ↔
      (∀ key, s.map.find key = some (s.spec.lookup key)) ∧ s.spec.keys.card < 2 ^ 31 := by
  have hCount : ∀ hFind : ∀ key, s.map.find key = some (s.spec.lookup key),
      s.map.entries.length = s.spec.keys.card := by
    intro hFind
    have hEntries := congrArg Multiset.card (entries_eq hFind)
    rw [Multiset.coe_card, Multiset.card_map] at hEntries
    rw [hEntries]
    exact (Multiset.card_map Sigma.fst s.spec.entries).symm
  constructor
  · intro h
    refine ⟨h.find, ?_⟩
    have hSize := h.size
    rw [← hCount h.find] at hSize hCard ⊢
    exact (size_eq_iff hCard).mp hSize
  · rintro ⟨hFind, hLt⟩
    refine ⟨?_, hFind, ?_, ?_⟩
    · intro op
      obtain ⟨m', hExec, -⟩ := hSized.exec op
      rw [hExec, Option.isSome_some]
    · rw [← hCount hFind] at hCard hLt ⊢
      exact (size_eq_iff hCard).mpr hLt
    · refine ⟨_, readAll_buckets hSized, ?_⟩
      have hValues := congrArg (Multiset.map Prod.snd) (entries_eq hFind)
      rw [Multiset.map_map, Multiset.map_coe, SafeHashmap.entries, List.map_flatMap] at hValues
      rw [← List.flatMap_def]
      exact hValues

/-- **The hash map refines a finite map** throughout a run exactly if it was asked for a
positive number of buckets, and every operation of the run keeps the agreement. -/
theorem safeHashmap_agrees_iff (mHashFunc : Key → Nat) (bucketNum : Nat)
    (ops : List (MapOp Key Value)) :
    Run.Always MapPair.step Agrees (MapPair.new mHashFunc bucketNum) ops ↔
      bucketNum ≠ 0 ∧ Run.Each MapPair.step Keeps (MapPair.new mHashFunc bucketNum) ops := by
  by_cases hNum : bucketNum = 0
  · -- the first bucket is read before there is one
    subst hNum
    refine ⟨fun h => ?_, fun h => absurd rfl h.1⟩
    obtain ⟨visits, hVisits, -⟩ := h.start.readAll
    have hFirst := congrArg (·[0]?) hVisits
    simp [MapPair.new, SafeHashmap.new, SafeHashmap.bucketSize, SafeHashmap.readAll] at hFirst
  · rw [Run.always_iff_each (fun s _ => s.map.Sized ∧ s.spec.keys.card < 2 ^ 31)]
    · exact ⟨fun h => ⟨hNum, h⟩, And.right⟩
    · rintro s op _ ⟨hSized, -⟩ _ ⟨-, hCard⟩
      exact ⟨MapPair.sized_step hSized op, hCard⟩
    · rintro s op _ ⟨hSized, hCard⟩ hAgrees
      have hNext : (op.apply s.spec).keys.card ≤ 2 ^ 31 := by
        have hOne := op.card_apply_le s.spec
        omega
      rw [agrees_iff (MapPair.sized_step hSized op) hNext,
        MapPair.find_step_iff hSized hAgrees.find, MapOp.stored_eq_expected_iff]
      refine and_congr ?_ Iff.rfl
      constructor
      · rintro h key value rfl
        exact h key value rfl
      · rintro h key value rfl
        exact h key value rfl
    · exact (agrees_iff (SafeHashmap.sized_new hNum) (by simp [MapPair.new])).mpr
        ⟨SafeHashmap.find_new hNum, by simp [MapPair.new]⟩
    · exact ⟨SafeHashmap.sized_new hNum, by simp [MapPair.new]⟩

/-- A value that is not overwritten; and a map of no buckets. -/
theorem safeHashmap_diverges :
    ¬ Run.Always MapPair.step Agrees (MapPair.new (fun key : Nat => key) 1)
      [.insertOrAssign 1 1, .insertOrAssign 1 2] ∧
    ¬ Run.Always MapPair.step Agrees (MapPair.new (fun key : Nat => key) 0 : MapPair Nat Nat _) [] := by
  constructor
  · intro h
    have hFind := h.final.find 1
    have : (some (some 1) : Option (Option Nat)) = some (some 2) := hFind
    cases this
  · intro h
    have hIn := h.start.inRange (.erase 1)
    exact absurd hIn (by decide)

end

end WarringServer.Utility
