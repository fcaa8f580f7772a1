import Mathlib.Data.List.Forall2
import Mathlib.Data.List.Induction
import Mathlib.Data.List.Nodup
import Mathlib.Data.List.Perm.Basic
import PascalAtlas.Ordered

/-!
# What comes first stays first

A set keeps its items in the order in which they first came, and a table its keys. So both can be
read off the list of what came: adding items to a set puts behind it those that it does not have,
each once (`OrderedSet.insertAll_eq`), and the keys of a table are the keys that came, each once
(`Table.keys_ofList`).

Two lists of items may be compared in different ways: one may go on where the other ends, or
have the same items in another order. Both ways are **kept** when some of the items are
selected and added to a set (`OrderedSet.Keeps`), and nothing else about them matters for what
is found out about a batch.
-/

namespace PascalAtlas

open List (Forall₂)

namespace OrderedSet

variable {α : Type} [DecidableEq α]

/-! ## Sets -/

section EraseDups

variable [BEq α] [LawfulBEq α]

/-- What adding items to a set puts **behind** it. -/
theorem insertAll_eq (items new : List α) :
    insertAll items new = items ++ (new.filter fun x => x ∉ items).eraseDups := by
  induction new generalizing items with
  | nil => exact (List.append_nil _).symm
  | cons x xs ih =>
    have hstep : insertAll items (x :: xs) = insertAll (insert items x) xs := rfl
    rw [hstep, ih, insert]
    by_cases hx : x ∈ items
    · rw [if_pos hx, List.filter_cons_of_neg (by simpa using hx)]
    · -- From here on what comes later counts as new only if it is not `x`.
      have hlater : (xs.filter fun y => y ∉ items ++ [x])
          = (xs.filter fun y => y ∉ items).filter fun y => !y == x := by
        rw [List.filter_filter]
        refine List.filter_congr fun y _ => ?_
        by_cases hy : y = x <;> simp [hy]
      rw [if_neg hx, List.filter_cons_of_pos (by simpa using hx), List.eraseDups_cons, hlater,
        List.append_assoc, List.singleton_append]

/-- The set of some items is their list **without repetitions**. -/
theorem ofList_eq (items : List α) : ofList items = items.eraseDups := by
  rw [ofList, insertAll_eq, List.nil_append]
  simp

end EraseDups

/-- Items that are added come behind those there are, without these. -/
theorem insertAll_eq_append (items new : List α) :
    insertAll items new = items ++ ofList (new.filter fun x => x ∉ items) := by
  rw [insertAll_eq, ofList_eq]

theorem ofList_concat (items : List α) (item : α) :
    ofList (items ++ [item]) = insert (ofList items) item :=
  List.foldl_concat ..

/-- Leaving out repetitions loses no item. -/
theorem mem_ofList {items : List α} {x : α} : x ∈ ofList items ↔ x ∈ items := by
  rw [ofList_eq, List.mem_eraseDups]

theorem nodup_insert {items : List α} (h : items.Nodup) (item : α) : (insert items item).Nodup := by
  rw [insert]
  split
  next => exact h
  next hitem =>
    rw [← List.concat_eq_append]
    exact List.Nodup.concat hitem h

/-- And each item is there once. -/
theorem nodup_ofList (items : List α) : (ofList items).Nodup := by
  induction items using List.reverseRecOn with
  | nil => exact List.nodup_nil
  | append_singleton items item ih =>
    rw [ofList_concat]
    exact nodup_insert ih item

/-! ## Comparing lists of items -/

/-- More items at the end add **at the end**. -/
theorem ofList_extends {l l' : List α} (h : l <+: l') : ofList l <+: ofList l' := by
  obtain ⟨more, rfl⟩ := h
  rw [ofList_eq, ofList_eq, List.eraseDups_append]
  exact List.prefix_append _ _

/-- Another order of the items is another order of the set. -/
theorem ofList_perm {l l' : List α} (h : l.Perm l') : (ofList l).Perm (ofList l') := by
  refine (List.perm_ext_iff_of_nodup (nodup_ofList l) (nodup_ofList l')).2 fun x => ?_
  rw [mem_ofList, mem_ofList, h.mem_iff]

/-- A way to compare lists that is **kept** when some of the items are selected
and added to a set. -/
def Keeps (R : List α → List α → Prop) : Prop :=
  ∀ (items : List α) (p : α → Bool) {l l' : List α}, R l l' →
    R (insertAll items (l.filter p)) (insertAll items (l'.filter p))

/-- Selecting nothing: the empty sets compare. -/
theorem Keeps.nil {R : List α → List α → Prop} (hR : Keeps R) {l l' : List α} (h : R l l') :
    R [] [] := by
  have hnone := hR [] (fun _ => false) h
  rwa [List.filter_false, List.filter_false] at hnone

/-- Going on where another list ends is kept. -/
theorem keeps_isPrefix : Keeps (α := α) (· <+: ·) := by
  intro items p l l' h
  rw [insertAll_eq_append, insertAll_eq_append]
  exact (List.prefix_append_right_inj _).2 (ofList_extends ((h.filter p).filter _))

/-- Having the same items in another order is kept. -/
theorem keeps_perm : Keeps (α := α) List.Perm := by
  intro items p l l' h
  rw [insertAll_eq_append, insertAll_eq_append]
  exact (ofList_perm ((h.filter p).filter _)).append_left items

end OrderedSet

namespace Table

variable {α β : Type} [DecidableEq α]

/-! ## Tables -/

/-- A key that is inserted comes behind the others, or keeps its place. -/
theorem keys_insert (t : Table α β) (key : α) (value : β) :
    (t.insert key value).keys = OrderedSet.insert t.keys key := by
  obtain ⟨entries⟩ := t
  show (insertEntry key value entries).map (·.1) = OrderedSet.insert (entries.map (·.1)) key
  induction entries with
  | nil => rfl
  | cons entry entries ih =>
    obtain ⟨k, v⟩ := entry
    rw [insertEntry]
    by_cases hk : k = key
    · rw [if_pos hk, OrderedSet.insert, if_pos (by simp [hk])]
      rfl
    · rw [if_neg hk, List.map_cons, ih]
      simp only [OrderedSet.insert, List.map_cons, List.mem_cons, Ne.symm hk, false_or]
      split <;> rfl

theorem ofList_concat (entries : List (α × β)) (entry : α × β) :
    ofList (entries ++ [entry]) = (ofList entries).insert entry.1 entry.2 := by
  rw [ofList, insertAll, List.foldl_append]
  rfl

/-- The **keys** of a table are the keys that came, each once. -/
theorem keys_ofList (entries : List (α × β)) :
    (ofList entries).keys = OrderedSet.ofList (entries.map (·.1)) := by
  induction entries using List.reverseRecOn with
  | nil => rfl
  | append_singleton entries entry ih =>
    rw [ofList_concat, keys_insert, ih, List.map_append, List.map_singleton,
      OrderedSet.ofList_concat]

/-- An entry is the new one or was there before. -/
theorem mem_insertEntry {key : α} {value : β} {entries : List (α × β)} {entry : α × β}
    (h : entry ∈ insertEntry key value entries) : entry = (key, value) ∨ entry ∈ entries := by
  induction entries with
  | nil => exact .inl (List.mem_singleton.1 h)
  | cons first entries ih =>
    obtain ⟨k, v⟩ := first
    rw [insertEntry] at h
    split at h
    next hk =>
      rcases List.mem_cons.1 h with rfl | hentry
      · exact .inl (by rw [hk])
      · exact .inr (List.mem_cons_of_mem _ hentry)
    next =>
      rcases List.mem_cons.1 h with rfl | hentry
      · exact .inr (List.mem_cons_self ..)
      · exact (ih hentry).imp_right (List.mem_cons_of_mem _)

/-- Every entry of a table is **one that came**. -/
theorem mem_of_mem_ofList {entries : List (α × β)} {entry : α × β}
    (h : entry ∈ (ofList entries).entries) :
    entry ∈ entries := by
  induction entries using List.reverseRecOn with
  | nil => cases h
  | append_singleton entries last ih =>
    rw [ofList_concat] at h
    rcases mem_insertEntry h with rfl | hbefore
    · exact List.mem_append_right _ (List.mem_singleton.2 rfl)
    · exact List.mem_append_left _ (ih hbefore)

/-- A new key comes **at the end**. -/
theorem insertEntry_of_notMem {key : α} {entries : List (α × β)} (h : key ∉ entries.map (·.1))
    (value : β) :
    insertEntry key value entries = entries ++ [(key, value)] := by
  induction entries with
  | nil => rfl
  | cons first entries ih =>
    rw [List.map_cons, List.mem_cons, not_or] at h
    rw [insertEntry, if_neg (Ne.symm h.1), ih h.2]
    rfl

/-- Where no key comes twice, the table **is** the list of what came. -/
theorem entries_ofList {entries : List (α × β)} (h : (entries.map (·.1)).Nodup) :
    (ofList entries).entries = entries := by
  induction entries using List.reverseRecOn with
  | nil => rfl
  | append_singleton entries last ih =>
    rw [List.map_append, List.map_singleton, ← List.concat_eq_append, List.nodup_concat] at h
    rw [ofList_concat]
    show insertEntry last.1 last.2 (ofList entries).entries = _
    rw [ih h.2, insertEntry_of_notMem h.1]

/-- Tables that are alike, entry by entry, stay so when alike entries are inserted. -/
theorem forall₂_insertEntry {γ : Type} {R : α × β → α × γ → Prop}
    (hkey : ∀ {e e'}, R e e' → e'.1 = e.1) {e : α × β} {e' : α × γ} (he : R e e')
    {entries : List (α × β)} {entries' : List (α × γ)} (h : Forall₂ R entries entries') :
    Forall₂ R (insertEntry e.1 e.2 entries) (insertEntry e'.1 e'.2 entries') := by
  induction h with
  | nil => exact .cons he .nil
  | @cons f f' fs fs' hf hfs ih =>
    obtain ⟨k, v⟩ := f
    obtain ⟨k', v'⟩ := f'
    obtain rfl : k' = k := hkey hf
    have hsame : e'.1 = e.1 := hkey he
    rw [insertEntry, insertEntry]
    -- Both tables meet the key in the same place.
    by_cases hk : k' = e.1
    · subst hk
      rw [if_pos rfl, if_pos hsame.symm]
      refine .cons ?_ hfs
      obtain ⟨k, v⟩ := e
      obtain ⟨k', v'⟩ := e'
      obtain rfl : k' = k := hsame
      exact he
    · rw [if_neg hk, if_neg (hsame ▸ hk)]
      exact .cons hf ih

/-- Tables made **of the same items** in two ways correspond entry by entry, if
the keys are the same. -/
theorem forall₂_ofList {ι γ : Type} {R : α × β → α × γ → Prop}
    (hkey : ∀ {e e'}, R e e' → e'.1 = e.1) {f : ι → α × β} {g : ι → α × γ}
    (h : ∀ x, R (f x) (g x)) (items : List ι) :
    Forall₂ R (ofList (items.map f)).entries (ofList (items.map g)).entries := by
  induction items using List.reverseRecOn with
  | nil => exact .nil
  | append_singleton items last ih =>
    rw [List.map_append, List.map_append, List.map_singleton, List.map_singleton,
      ofList_concat, ofList_concat]
    exact forall₂_insertEntry hkey (h last) ih

end Table

end PascalAtlas
