import Mathlib.Data.List.Sort
import Mathlib.Data.List.Nodup

/-!
# ActiveFsm.OrderedMap

Maps as lists of entries in the order of their keys, which is the order in
which a loop over a `std::map` comes to them.

* `find?`, `insert`, `erase` — with `find?_insert` and `find?_erase` for what
  becomes of every key;
* `extractFrom`, `leave` — a loop that takes entries out until it has no more
  room (`find?_extract`, `countP_rest`).

Nothing here depends on what a key or a value is.
-/

/-- A map holds each key once. -/
structure OrderedMap (κ ν : Type) [LT κ] where
  entries : List (κ × ν) := []
  sorted : entries.Pairwise fun a b => a.1 < b.1 := by exact .nil

namespace OrderedMap

variable {κ ν : Type}

/-! ## A loop that takes entries out -/

/-- What the loop comes to: the entries it took, the entries it left, and
whether it stopped for want of room. -/
structure Extracted (κ ν : Type) where
  taken : List (κ × ν)
  rest : List (κ × ν)
  full : Bool

/-- `while (it != end) if (sel(it->second)) { if (count >= room) break;
buffer[count++] = *it; it = erase(it); } else ++it;` -/
def extractFrom (sel : ν → Bool) : Nat → List (κ × ν) → Extracted κ ν
  | _, [] => ⟨[], [], false⟩
  | room, e :: l =>
    if sel e.2 then
      match room with
      | 0 => ⟨[], e :: l, true⟩
      | room + 1 =>
        let r := extractFrom sel room l
        ⟨e :: r.taken, r.rest, r.full⟩
    else
      let r := extractFrom sel room l
      ⟨r.taken, e :: r.rest, r.full⟩

section

variable (sel : ν → Bool) (room : Nat) (l : List (κ × ν))

/-- What is left is in its old order. -/
theorem rest_sublist : (extractFrom sel room l).rest.Sublist l := by
  fun_induction extractFrom sel room l with
  | case1 => exact .refl _
  | case2 => exact .refl _
  | case3 _ _ _ _ _ ih => exact ih.cons _
  | case4 _ _ _ _ _ ih => exact ih.cons_cons _

/-- Nothing is lost on the way. -/
theorem mem_extractFrom (e : κ × ν) :
    e ∈ l ↔ e ∈ (extractFrom sel room l).taken ∨ e ∈ (extractFrom sel room l).rest := by
  fun_induction extractFrom sel room l with
  | case1 => simp
  | case2 => simp
  | case3 _ _ _ _ r ih => grind
  | case4 _ _ _ _ r ih => grind

/-- What is selected is taken or left. -/
theorem countP_extractFrom :
    (extractFrom sel room l).taken.length +
        (extractFrom sel room l).rest.countP (fun e => sel e.2) =
      l.countP fun e => sel e.2 := by
  fun_induction extractFrom sel room l with
  | case1 => simp
  | case2 => simp
  | case3 e l hsel room r ih =>
      rw [List.countP_cons_of_pos (by simpa using hsel), ← ih, List.length_cons]
      exact Nat.add_right_comm r.taken.length 1 _
  | case4 room e l hsel r ih =>
      rw [List.countP_cons_of_neg (by simpa using hsel),
        List.countP_cons_of_neg (by simpa using hsel), ← ih]

/-- Unless the room was used up, nothing that is left is selected. -/
theorem countP_rest (h : (extractFrom sel room l).taken.length ≠ room) :
    (extractFrom sel room l).rest.countP (fun e => sel e.2) = 0 := by
  fun_induction extractFrom sel room l with
  | case1 => rfl
  | case2 => exact absurd rfl h
  | case3 e l hsel room r ih => exact ih fun heq => h (by rw [List.length_cons, heq])
  | case4 room e l hsel r ih =>
      rw [List.countP_cons_of_neg (by simpa using hsel)]
      exact ih h

end

/-! ## Looking up -/

variable [LinearOrder κ] (m : OrderedMap κ ν)

def find? (k : κ) : Option ν := (m.entries.find? fun e => e.1 = k).map Prod.snd

def contains (k : κ) : Bool := (m.find? k).isSome

def size : Nat := m.entries.length

/-- Some of the entries. -/
def restrict (l : List (κ × ν)) (h : l.Sublist m.entries) : OrderedMap κ ν :=
  ⟨l, m.sorted.sublist h⟩

def erase (k : κ) : OrderedMap κ ν :=
  m.restrict (m.entries.filter fun e => e.1 ≠ k) List.filter_sublist

variable {m} {k j : κ} {v w : ν}

/-- No key occurs twice. -/
theorem nodup_keys (m : OrderedMap κ ν) : (m.entries.map Prod.fst).Nodup :=
  List.pairwise_map.mpr (m.sorted.imp ne_of_lt)

/-- An entry is found under its key, whichever other entries there are. -/
theorem find?_eq_some : m.find? k = some v ↔ (k, v) ∈ m.entries := by
  simp only [find?, Option.map_eq_some_iff]
  constructor
  · rintro ⟨⟨j, w⟩, hfind, rfl⟩
    have hkey : j = k := by simpa using List.find?_some hfind
    exact hkey ▸ List.mem_of_find?_eq_some hfind
  · intro hmem
    have hsome : (m.entries.find? fun e => e.1 = k).isSome :=
      List.find?_isSome.mpr ⟨(k, v), hmem, by simp⟩
    obtain ⟨e, hfind⟩ := Option.isSome_iff_exists.mp hsome
    have hkey : e.1 = k := by simpa using List.find?_some hfind
    have heq := List.inj_on_of_nodup_map m.nodup_keys (List.mem_of_find?_eq_some hfind) hmem hkey
    exact ⟨e, hfind, by rw [heq]⟩

/-- A key that is not found has no entry. -/
theorem find?_eq_none : m.find? k = none ↔ ∀ v, (k, v) ∉ m.entries := by
  rw [Option.eq_none_iff_forall_ne_some]
  exact forall_congr' fun v => not_congr find?_eq_some

/-- Two maps agree on a key where they have the same entries under it. -/
theorem find?_congr {m' : OrderedMap κ ν} (h : ∀ v, (k, v) ∈ m.entries ↔ (k, v) ∈ m'.entries) :
    m.find? k = m'.find? k :=
  Option.ext fun v => find?_eq_some.trans ((h v).trans find?_eq_some.symm)

@[simp] theorem find?_empty : ({} : OrderedMap κ ν).find? k = none := rfl

/-- An erased key is gone. -/
@[simp] theorem find?_erase_self : (m.erase k).find? k = none :=
  find?_eq_none.mpr fun v => by simp [erase, restrict]

/-- The other keys stay. -/
theorem find?_erase_of_ne (h : j ≠ k) : (m.erase k).find? j = m.find? j :=
  find?_congr fun v => by simp [erase, restrict, h]

/-- Looking up after `erase`. -/
theorem find?_erase : (m.erase k).find? j = if j = k then none else m.find? j := by
  split
  · next heq => rw [heq, find?_erase_self]
  · next hne => exact find?_erase_of_ne hne

/-! ## Inserting -/

/-- The entries stay sorted by their keys. -/
theorem sorted_insert (k : κ) (v : ν) (m : OrderedMap κ ν) :
    ((m.erase k).entries.orderedInsert (fun a b => a.1 ≤ b.1) (k, v)).Pairwise
      fun a b => a.1 < b.1 := by
  have : Std.Total fun a b : κ × ν => a.1 ≤ b.1 := ⟨fun a b => le_total a.1 b.1⟩
  have : IsTrans (κ × ν) fun a b => a.1 ≤ b.1 := ⟨fun _ _ _ => le_trans⟩
  have hle : ((m.erase k).entries.orderedInsert (fun a b => a.1 ≤ b.1) (k, v)).Pairwise
      fun a b => a.1 ≤ b.1 :=
    List.Pairwise.orderedInsert _ _ ((m.erase k).sorted.imp le_of_lt)
  have hfresh : k ∉ (m.erase k).entries.map Prod.fst := by simp [erase, restrict]
  have hnodup : (((m.erase k).entries.orderedInsert (fun a b => a.1 ≤ b.1) (k, v)).map
      Prod.fst).Nodup := by
    rw [((List.perm_orderedInsert _ _ _).map Prod.fst).nodup_iff]
    exact List.nodup_cons.mpr ⟨hfresh, (m.erase k).nodup_keys⟩
  exact (hle.and (List.pairwise_map.mp hnodup)).imp fun h => lt_of_le_of_ne h.1 h.2

/-- `m[k] = v;` -/
def insert (m : OrderedMap κ ν) (k : κ) (v : ν) : OrderedMap κ ν :=
  ⟨(m.erase k).entries.orderedInsert (fun a b => a.1 ≤ b.1) (k, v), sorted_insert k v m⟩

/-- The entries after `insert`. -/
theorem mem_insert : (j, w) ∈ (m.insert k v).entries ↔
    j = k ∧ w = v ∨ (j, w) ∈ (m.erase k).entries := by
  simp [insert]

/-- An inserted key has its value. -/
@[simp] theorem find?_insert_self : (m.insert k v).find? k = some v :=
  find?_eq_some.mpr (mem_insert.mpr (.inl ⟨rfl, rfl⟩))

/-- The other keys keep theirs. -/
theorem find?_insert_of_ne (h : j ≠ k) : (m.insert k v).find? j = m.find? j :=
  (find?_congr fun w => mem_insert.trans (by simp [h])).trans (find?_erase_of_ne h)

/-- Looking up after `insert`. -/
theorem find?_insert : (m.insert k v).find? j = if j = k then some v else m.find? j := by
  split
  · next heq => rw [heq, find?_insert_self]
  · next hne => exact find?_insert_of_ne hne

/-- A value that is not selected adds nothing to those that are. -/
theorem countP_insert_le {sel : ν → Bool} (m : OrderedMap κ ν) (hv : sel v = false) :
    (m.insert k v).entries.countP (fun e => sel e.2) ≤ m.entries.countP fun e => sel e.2 := by
  have hperm := List.perm_orderedInsert (fun a b => a.1 ≤ b.1) (k, v) (m.erase k).entries
  rw [insert, hperm.countP_eq, List.countP_cons_of_neg (by simp [hv])]
  exact List.filter_sublist.countP_le

/-! ## Taking entries out -/

/-- The map without the entries that `extractFrom` takes. -/
def leave (m : OrderedMap κ ν) (sel : ν → Bool) (room : Nat) : OrderedMap κ ν :=
  m.restrict (extractFrom sel room m.entries).rest (rest_sublist sel room m.entries)

/-- What is left was there before. -/
theorem find?_of_leave {sel : ν → Bool} {room : Nat} (h : (m.leave sel room).find? k = some v) :
    m.find? k = some v :=
  find?_eq_some.mpr ((rest_sublist sel room m.entries).subset (find?_eq_some.mp h))

/-- An entry is taken out or it is still there. -/
theorem find?_extract (sel : ν → Bool) (room : Nat) (h : m.find? k = some v) :
    (k, v) ∈ (extractFrom sel room m.entries).taken ∨ (m.leave sel room).find? k = some v :=
  ((mem_extractFrom sel room m.entries _).mp (find?_eq_some.mp h)).imp_right find?_eq_some.mpr

end OrderedMap
