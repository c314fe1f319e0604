import FleetManagement.Privacy.JsonLines
import FleetManagement.Privacy.Rebuilding

/-!
# Values that JSON can have

Which values can be written once they are sanitized. All but the keys of dictionaries have a text to fall back on.
-/

namespace FleetManagement

/-- The values whose sanitized forms have only keys that JSON can have. -/
inductive Writable (t : TextTables) : PyValue → Prop where
  | none : Writable t .none
  | bool (b : Bool) : Writable t (.bool b)
  | int (n : Int) : Writable t (.int n)
  | float (repr : Text) (kind : PyFloat) : Writable t (.float repr kind)
  | str (s : Text) : Writable t (.str s)
  | exception (object : PyInstance) : Writable t (.exception object)
  | generator : Writable t .generator
  | set (items : List PyValue) : Writable t (.set items)
  | frozenset (items : List PyValue) : Writable t (.frozenset items)
  | dict {items : List (PyValue × PyValue)} (hkeys : ∀ p ∈ items, ∃ key, p.1.keyJson = .ok key)
      (h : ∀ p ∈ items, isSecretKey t (keyText t p.1) = false → Writable t p.2) : Writable t (.dict items)
  | list {items : List PyValue} (h : ∀ v ∈ items, Writable t v) : Writable t (.list items)
  | tuple {items : List PyValue} (h : ∀ v ∈ items, Writable t v) : Writable t (.tuple items)
  /-- The defaults take the places of the fields and are not sanitized. -/
  | namedTuple {name : Text} {fields : List Text} {defaults items : List PyValue}
      (h : ∀ v ∈ defaults.drop (1 + defaults.length - fields.length), ∃ j, v.toJson t.isPrintable = .ok j) :
      Writable t (.namedTuple name fields defaults items)
  | dataclass {object : PyInstance} {fields : List (Text × PyValue)} {d : PyValue}
      (hd : PyValue.asdict (.dataclass object fields) = .ok d) (h : Writable t d) :
      Writable t (.dataclass object fields)
  | model {object : PyInstance} {dump : PyValue} (h : Writable t dump) : Writable t (.model object (.ok dump))

section Writing
variable {t : TextTables} {key : Text} {v r : PyValue}

theorem allToJson_ok_iff {vs : List PyValue} : (∃ js, PyValue.allToJson t.isPrintable vs = .ok js) ↔
    ∀ v ∈ vs, ∃ j, v.toJson t.isPrintable = .ok j := by
  simp only [PyValue.allToJson_ok, exists_forall₂]

theorem itemsToJson_ok_iff {items : List (PyValue × PyValue)} :
    (∃ members, PyValue.itemsToJson t.isPrintable items = .ok members) ↔
      ∀ p ∈ items, (∃ key, p.1.keyJson = .ok key) ∧ ∃ j, p.2.toJson t.isPrintable = .ok j := by
  simp only [PyValue.itemsToJson_ok, exists_forall₂]
  refine forall₂_congr fun p _ => ⟨?_, ?_⟩
  · rintro ⟨m, hkey, hj⟩
    exact ⟨⟨m.1, hkey⟩, m.2, hj⟩
  · rintro ⟨⟨key, hkey⟩, j, hj⟩
    exact ⟨(key, j), hkey, hj⟩

theorem forall_mem_iff_of_forall₂ {α β : Type} {P : α → Prop} {Q : β → Prop} {as : List α} {bs : List β}
    (h : List.Forall₂ (fun a b => P a ↔ Q b) as bs) : (∀ a ∈ as, P a) ↔ ∀ b ∈ bs, Q b := by
  induction h with
  | nil => simp
  | cons hab _ ih => rw [List.forall_mem_cons, List.forall_mem_cons, hab, ih]

theorem written_item (h : sanitizeItem t key v = .ok r)
    (hvalue : sanitizeValue t v = .ok r → ((∃ j, r.toJson t.isPrintable = .ok j) ↔ Writable t v)) :
    (∃ j, r.toJson t.isPrintable = .ok j) ↔ (isSecretKey t key = false → Writable t v) := by
  cases hsecret : isSecretKey t key with
  | true =>
      rw [sanitizeItem_secret hsecret] at h
      cases h
      exact ⟨fun _ h => (by cases h), fun _ => ⟨_, rfl⟩⟩
  | false =>
      by_cases hname : isNameKey t key = true ∧ ∃ s, v = .str s
      · obtain ⟨hname, s, rfl⟩ := hname
        rw [sanitizeItem_name hsecret hname] at h
        cases h
        exact ⟨fun _ _ => .str s, fun _ => ⟨_, rfl⟩⟩
      · rw [sanitizeItem_other hsecret fun h s hs => hname ⟨h, s, hs⟩] at h
        exact (hvalue h).trans ⟨fun hv _ => hv, fun hv => hv rfl⟩

/-- The induction is on the size, as a dataclass and a model are sanitized as their dictionaries. -/
theorem written_of_weight (n : Nat) (hn : v.weight ≤ n) (h : sanitizeValue t v = .ok r) :
    (∃ j, r.toJson t.isPrintable = .ok j) ↔ Writable t v := by
  induction n generalizing v r with
  | zero =>
      have := v.weight_pos
      omega
  | succ n ih =>
      have helements : ∀ {vs rs : List PyValue}, 1 + PyValue.allWeight vs ≤ n + 1 →
          sanitizeValues t vs = .ok rs →
          ((∃ j, (do return Json.arr (← PyValue.allToJson t.isPrintable rs) : Except PyError Json) = .ok j) ↔
            ∀ v ∈ vs, Writable t v) := fun {vs rs} hn hrs => by
        refine ok_bind_ok.trans (allToJson_ok_iff.trans (forall_mem_iff_of_forall₂ ?_))
        rw [sanitizeValues_ok, List.forall₂_iff_zip] at hrs
        refine (List.forall₂_iff_zip.mpr ⟨hrs.1, fun {v r} hp => ?_⟩).flip
        have := PyValue.weight_of_mem (List.of_mem_zip hp).1
        exact ih (by omega) (hrs.2 hp)
      cases v with
      | str s =>
          rw [sanitizeValue_str] at h
          cases h
          exact ⟨fun _ => .str s, fun _ => ⟨_, rfl⟩⟩
      | none | bool _ | int _ | float _ _ | exception _ | generator =>
          rw [sanitizeValue.eq_def] at h
          cases h
          exact ⟨fun _ => by constructor, fun _ => ⟨_, rfl⟩⟩
      | dict items =>
          rw [sanitizeValue] at h
          obtain ⟨rs, hrs, h⟩ := PyValue.bind_ok.mp h
          cases h
          have hitems : (∀ q ∈ rs, (∃ key, q.1.keyJson = .ok key) ∧ ∃ j, q.2.toJson t.isPrintable = .ok j) ↔
              ∀ p ∈ items, (∃ key, p.1.keyJson = .ok key) ∧
                (isSecretKey t (keyText t p.1) = false → Writable t p.2) := by
            rw [sanitizeItems_ok, List.forall₂_iff_zip] at hrs
            refine forall_mem_iff_of_forall₂ (List.forall₂_iff_zip.mpr ⟨hrs.1, fun {p q} hp => ?_⟩).flip
            obtain ⟨hkey, hq⟩ := hrs.2 hp
            have := PyValue.weight_of_mem_items (List.of_mem_zip hp).1
            simp only [PyValue.weight] at hn
            simp only [flip, hkey]
            exact and_congr_right' (written_item hq fun hq => ih (by omega) hq)
          refine ok_bind_ok.trans (itemsToJson_ok_iff.trans (hitems.trans ⟨fun h => ?_, fun h => ?_⟩))
          · exact .dict (fun p hp => (h p hp).1) fun p hp => (h p hp).2
          · cases h with
            | dict hkeys h => exact fun p hp => ⟨hkeys p hp, h p hp⟩
      | list items =>
          rw [sanitizeValue] at h
          obtain ⟨rs, hrs, h⟩ := PyValue.bind_ok.mp h
          cases h
          refine (helements hn hrs).trans ⟨.list, fun h => ?_⟩
          cases h with
          | list h => exact h
      | tuple items =>
          rw [sanitizeValue] at h
          obtain ⟨rs, hrs, h⟩ := PyValue.bind_ok.mp h
          cases h
          refine (helements hn hrs).trans ⟨.tuple, fun h => ?_⟩
          cases h with
          | tuple h => exact h
      | namedTuple name fields defaults items =>
          rw [sanitizeValue, PyValue.construct] at h
          split at h
          · cases h
            refine ok_bind_ok.trans (allToJson_ok_iff.trans ?_)
            rw [List.singleton_append, List.forall_mem_cons]
            constructor
            · exact fun h => .namedTuple h.2
            · intro h
              cases h with
              | namedTuple h => exact ⟨⟨_, rfl⟩, h⟩
          · cases h
      | set items | frozenset items =>
          rw [sanitizeValue] at h
          obtain ⟨rs, -, h⟩ := PyValue.bind_ok.mp h
          obtain ⟨ds, -, h⟩ := PyValue.bind_ok.mp h
          cases h
          exact ⟨fun _ => by constructor, fun _ => ⟨_, rfl⟩⟩
      | dataclass object fields =>
          rw [sanitizeValue_dataclass] at h
          obtain ⟨d, hd, h⟩ := PyValue.bind_ok.mp h
          have := PyValue.weight_asdict_dataclass hd
          refine (ih (by omega) h).trans ⟨.dataclass hd, fun hwrites => ?_⟩
          cases hwrites with
          | dataclass hd' hwrites =>
              rw [hd'] at hd
              cases hd
              exact hwrites
      | model object dump =>
          cases dump with
          | error e =>
              rw [sanitizeValue] at h
              cases h
          | ok dump =>
              rw [sanitizeValue] at h
              refine (ih (by simp only [PyValue.weight] at hn; omega) h).trans ⟨.model, fun h => ?_⟩
              cases h with
              | model h => exact h

theorem written_iff (h : sanitizeValue t v = .ok r) : (∃ j, r.toJson t.isPrintable = .ok j) ↔ Writable t v :=
  written_of_weight _ le_rfl h

/-- An extra can be written if and only if its value can; an exception is written as its text. -/
theorem written_extra (h : sanitizeExtra t key v = .ok r) :
    (∃ j, r.toJson t.isPrintable = .ok j) ↔ (isSecretKey t key = false → Writable t v) := by
  obtain ⟨cleaned, hcleaned, h⟩ := PyValue.bind_ok.mp h
  rw [← written_item hcleaned written_iff]
  cases cleaned with
  | exception object =>
      cases h
      exact ⟨fun _ => ⟨_, rfl⟩, fun _ => ⟨_, rfl⟩⟩
  | _ =>
      cases h
      rfl

end Writing

end FleetManagement
