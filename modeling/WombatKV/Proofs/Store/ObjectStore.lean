import WombatKV.Store.WalStore

/-! What each request to the object store does. -/

namespace WombatKV

namespace ObjectStore

variable {store : ObjectStore} {key : Text} {payload : Bytes} {objects : Objects}
  {policy : PutPolicy}

@[simp] theorem advance_objects : store.advance.objects = store.objects := rfl

@[simp] theorem advance_putPolicy : store.advance.putPolicy = store.putPolicy := rfl

theorem putInto_of_ne {policy : PutPolicy} {objects : Objects} {other : Text}
    (different : key ≠ other) : (putInto policy objects key payload)[other]? = objects[other]? := by
  cases policy with
  | keepExisting => simp [putInto, Std.ExtTreeMap.getElem?_insertIfNew, different]
  | replace => simp [putInto, Std.ExtTreeMap.getElem?_insert, different]

theorem putInto_self (policy : PutPolicy) (objects : Objects) (key : Text) (payload : Bytes) :
    (putInto policy objects key payload)[key]? = match policy with
      | .keepExisting => some (objects[key]?.getD payload)
      | .replace => some payload := by
  cases policy with
  | keepExisting =>
    rw [putInto, Std.ExtTreeMap.getElem?_insertIfNew]
    by_cases present : key ∈ objects
    · rw [if_neg (by simp [present]), Std.ExtTreeMap.getElem?_eq_some_getElem present]
      rfl
    · rw [if_pos (by simp [present]), Std.ExtTreeMap.getElem?_eq_none present]
      rfl
  | replace => simp [putInto]

theorem putInto_absent (free : objects[key]? = none) :
    (putInto policy objects key payload)[key]? = some payload := by
  cases policy with
  | keepExisting => simp only [putInto_self, free, Option.getD_none]
  | replace => exact putInto_self _ _ _ _

theorem putInto_cases {other : Text} {found : Bytes}
    (present : (putInto policy objects key payload)[other]? = some found) :
    objects[other]? = some found ∨ other = key ∧ found = payload := by
  by_cases same : key = other
  · subst same
    rw [putInto_self] at present
    cases policy with
    | keepExisting =>
      simp only [Option.some.injEq] at present
      cases held : objects[key]? with
      | none => exact .inr ⟨rfl, by simpa [held] using present.symm⟩
      | some old => exact .inl (by simpa [held] using present)
    | replace => exact .inr ⟨rfl, (Option.some.inj present).symm⟩
  · exact .inl ((putInto_of_ne same).symm.trans present)

theorem mem_putInto {other : Text} :
    other ∈ putInto policy objects key payload ↔ key = other ∨ other ∈ objects := by
  cases policy with
  | keepExisting => simp [putInto]
  | replace => simp [putInto]

def Extends (before after : Objects) : Prop :=
  ∀ (key : Text) (payload : Bytes), before[key]? = some payload → after[key]? = some payload

theorem Extends.refl (objects : Objects) : Extends objects objects := fun _ _ found => found

theorem Extends.trans {before between after : Objects} (first : Extends before between)
    (second : Extends between after) : Extends before after :=
  fun key payload found => second key payload (first key payload found)

theorem Extends.putInto (free : objects[key]? = none) :
    Extends objects (putInto policy objects key payload) := by
  intro other found present
  have different : key ≠ other := by
    rintro rfl
    simp [free] at present
  rw [putInto_of_ne different, present]

def Healthy (store : ObjectStore) : Prop := store.faults = fun _ => none

section

variable (healthy : store.Healthy)

include healthy

theorem Healthy.advance : store.advance = store := by
  cases store
  simp_all [Healthy, ObjectStore.advance]

theorem Healthy.request {α : Type} (operation : Call WalStoreError ObjectStore α) :
    ObjectStore.request operation store = operation store := by
  have clear : store.faults 0 = none := congrFun healthy 0
  simp only [ObjectStore.request, clear, healthy.advance]

def withPut (store : ObjectStore) (key : Text) (payload : Bytes) : ObjectStore :=
  { store with objects := putInto store.putPolicy store.objects key payload }

theorem Healthy.withPut : (store.withPut key payload).Healthy := healthy

theorem putObject_healthy (key : Text) (payload : Bytes) :
    putObject key payload store = (.ok (), store.withPut key payload) :=
  healthy.request _

theorem headObject_healthy (key : Text) :
    headObject key store = (.ok (store.objects.contains key), store) :=
  healthy.request _

theorem getObject_healthy (found : store.objects[key]? = some payload) :
    getObject key store = (.ok payload, store) :=
  (healthy.request _).trans (by simp only [found])

end

theorem ensures_request {α : Type} {operation : Call WalStoreError ObjectStore α}
    {post : Except WalStoreError α → ObjectStore → Prop} :
    (request operation).Ensures post store ↔
      (∀ error, store.faults 0 = some error → post (.error error) store.advance) ∧
        (store.faults 0 = none → operation.Ensures post store.advance) := by
  unfold Call.Ensures request
  cases store.faults 0 with
  | none => simp
  | some error => simp

theorem ensures_putObject {post : Except WalStoreError Unit → ObjectStore → Prop} :
    (putObject key payload).Ensures post store ↔
      (∀ error, store.faults 0 = some error → post (.error error) store.advance) ∧
        (store.faults 0 = none → post (.ok ()) { store.advance with
          objects := putInto store.putPolicy store.objects key payload }) :=
  ensures_request

theorem ensures_headObject {post : Except WalStoreError Bool → ObjectStore → Prop} :
    (headObject key).Ensures post store ↔
      (∀ error, store.faults 0 = some error → post (.error error) store.advance) ∧
        (store.faults 0 = none → post (.ok (store.objects.contains key)) store.advance) :=
  ensures_request

theorem ensures_listPrefix {start : Text}
    {post : Except WalStoreError (List Text) → ObjectStore → Prop} :
    (listPrefix start).Ensures post store ↔
      (∀ error, store.faults 0 = some error → post (.error error) store.advance) ∧
        (store.faults 0 = none → post (.ok (store.objects.keys.filter (start.isPrefixOf ·)))
          store.advance) :=
  ensures_request

theorem ensures_deleteObject {post : Except WalStoreError Bool → ObjectStore → Prop} :
    (deleteObject key).Ensures post store ↔
      (∀ error, store.faults 0 = some error → post (.error error) store.advance) ∧
        (store.faults 0 = none → post (.ok (store.objects.contains key)) { store.advance with
          objects := store.objects.erase key }) :=
  ensures_request

theorem ensures_getObject {post : Except WalStoreError Bytes → ObjectStore → Prop} :
    (getObject key).Ensures post store ↔
      (∀ error, store.faults 0 = some error → post (.error error) store.advance) ∧
        (store.faults 0 = none → match store.objects[key]? with
          | some payload => post (.ok payload) store.advance
          | none => post (.error (.objectNotFound key)) store.advance) := by
  refine ensures_request.trans (and_congr_right fun _ => imp_congr_right fun _ => ?_)
  simp only [Call.Ensures, advance_objects]
  cases store.objects[key]? with
  | none => rfl
  | some payload => rfl

end ObjectStore

end WombatKV

