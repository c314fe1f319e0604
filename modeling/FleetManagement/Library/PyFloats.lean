import FleetManagement.Library.JsonReader
import FleetManagement.Library.PyJson

/-!
# Floats within values

`float.__repr__` writes a finite float as a number with a fraction or an exponent, which a JSON reader reads.
-/

namespace PyValue

mutual
/-- Every finite float in the value has the text of one. -/
def FloatsWritten : PyValue → Prop
  | .float repr .finite => Json.FloatText repr
  | .dict items => ItemsWritten items
  | .list items | .tuple items | .set items | .frozenset items => AllWritten items
  | .namedTuple _ _ defaults items => AllWritten defaults ∧ AllWritten items
  | .dataclass _ fields => FieldsWritten fields
  | .model _ (.ok dump) => dump.FloatsWritten
  | _ => True

def AllWritten : List PyValue → Prop
  | [] => True
  | v :: vs => v.FloatsWritten ∧ AllWritten vs

def ItemsWritten : List (PyValue × PyValue) → Prop
  | [] => True
  | (_, v) :: items => v.FloatsWritten ∧ ItemsWritten items

def FieldsWritten : List (List Char × PyValue) → Prop
  | [] => True
  | (_, v) :: fields => v.FloatsWritten ∧ FieldsWritten fields
end

theorem allWritten_iff {vs : List PyValue} : AllWritten vs ↔ ∀ v ∈ vs, v.FloatsWritten := by
  induction vs with
  | nil => simp [AllWritten]
  | cons v vs ih => simp [AllWritten, ih]

theorem itemsWritten_iff {items : List (PyValue × PyValue)} :
    ItemsWritten items ↔ ∀ p ∈ items, p.2.FloatsWritten := by
  induction items with
  | nil => simp [ItemsWritten]
  | cons p items ih => simp [ItemsWritten, ih]

/-! ## Dictionaries of dataclasses -/

mutual
theorem written_asdict : (v : PyValue) → {d : PyValue} → v.FloatsWritten → asdict v = .ok d → d.FloatsWritten
  | .dataclass _ fields, d, hv, h => by
      obtain ⟨items, hitems, hd⟩ := bind_ok.mp h
      cases hd
      exact written_asdictFields fields hv hitems
  | .list items, d, hv, h | .tuple items, d, hv, h => by
      obtain ⟨vs, hvs, hd⟩ := bind_ok.mp h
      cases hd
      exact written_asdictAll items hv hvs
  | .namedTuple _ _ _ items, d, hv, h => by
      obtain ⟨vs, hvs, hd⟩ := bind_ok.mp h
      cases hd
      exact ⟨hv.1, written_asdictAll items hv.2 hvs⟩
  | .dict items, d, hv, h => by
      obtain ⟨ds, hds, hd⟩ := bind_ok.mp h
      cases hd
      exact written_asdictItems items hv hds
  | .none, d, hv, h | .bool _, d, hv, h | .int _, d, hv, h | .float _ _, d, hv, h | .str _, d, hv, h
  | .exception _, d, hv, h | .set _, d, hv, h | .frozenset _, d, hv, h | .model _ _, d, hv, h
  | .generator, d, hv, h => by
      simp only [asdict] at h
      split at h
      · cases h
        exact hv
      · cases h

theorem written_asdictAll :
    (vs : List PyValue) → {ds : List PyValue} → AllWritten vs → asdictAll vs = .ok ds → AllWritten ds
  | [], ds, _, h => by
      cases h
      exact trivial
  | v :: vs, ds, hv, h => by
      obtain ⟨d, hd, h⟩ := bind_ok.mp h
      obtain ⟨ds', hds, h⟩ := bind_ok.mp h
      cases h
      exact ⟨written_asdict v hv.1 hd, written_asdictAll vs hv.2 hds⟩

theorem written_asdictItems : (items : List (PyValue × PyValue)) →
    {ds : List (PyValue × PyValue)} → ItemsWritten items → asdictItems items = .ok ds → ItemsWritten ds
  | [], ds, _, h => by
      cases h
      exact trivial
  | (k, v) :: items, ds, hv, h => by
      obtain ⟨k', hk, h⟩ := bind_ok.mp h
      obtain ⟨v', hv', h⟩ := bind_ok.mp h
      split at h
      · obtain ⟨ds', hds, h⟩ := bind_ok.mp h
        cases h
        exact ⟨written_asdict v hv.1 hv', written_asdictItems items hv.2 hds⟩
      · cases h

theorem written_asdictFields : (fields : List (List Char × PyValue)) →
    {ds : List (PyValue × PyValue)} → FieldsWritten fields → asdictFields fields = .ok ds → ItemsWritten ds
  | [], ds, _, h => by
      cases h
      exact trivial
  | (name, v) :: fields, ds, hv, h => by
      obtain ⟨v', hv', h⟩ := bind_ok.mp h
      obtain ⟨ds', hds, h⟩ := bind_ok.mp h
      cases h
      exact ⟨written_asdict v hv.1 hv', written_asdictFields fields hv.2 hds⟩
end

/-! ## Values as JSON -/

section Encoding
variable {isPrintable : Char → Bool}

theorem readable_floatText {repr : List Char} {kind : PyFloat} (h : (PyValue.float repr kind).FloatsWritten) :
    Json.Readable (.float (floatText repr kind)) := by
  cases kind with
  | finite => exact Or.inl h
  | infinite =>
      by_cases hminus : repr.head? = some '-'
      · rw [floatText, if_pos hminus]
        exact Or.inr (List.mem_cons_of_mem _ (List.mem_cons_of_mem _ List.mem_cons_self))
      · rw [floatText, if_neg hminus]
        exact Or.inr (List.mem_cons_of_mem _ List.mem_cons_self)
  | nan => exact Or.inr List.mem_cons_self

mutual
theorem readable_toJson : (v : PyValue) → {j : Json} → v.FloatsWritten → toJson isPrintable v = .ok j → j.Readable
  | .none, j, _, h | .bool _, j, _, h | .int _, j, _, h | .str _, j, _, h | .exception _, j, _, h
  | .dataclass _ _, j, _, h | .model _ _, j, _, h | .set _, j, _, h | .frozenset _, j, _, h
  | .generator, j, _, h => by
      cases h
      exact trivial
  | .float repr kind, j, hv, h => by
      cases h
      exact readable_floatText hv
  | .dict items, j, hv, h => by
      obtain ⟨members, hmembers, h⟩ := bind_ok.mp h
      cases h
      exact readable_itemsToJson items hv hmembers
  | .list items, j, hv, h | .tuple items, j, hv, h => by
      obtain ⟨js, hjs, h⟩ := bind_ok.mp h
      cases h
      exact readable_allToJson items hv hjs
  | .namedTuple _ _ _ items, j, hv, h => by
      obtain ⟨js, hjs, h⟩ := bind_ok.mp h
      cases h
      exact readable_allToJson items hv.2 hjs

theorem readable_allToJson : (vs : List PyValue) → {js : List Json} → AllWritten vs →
    allToJson isPrintable vs = .ok js → Json.AllReadable js
  | [], js, _, h => by
      cases h
      exact trivial
  | v :: vs, js, hv, h => by
      obtain ⟨j, hj, h⟩ := bind_ok.mp h
      obtain ⟨js', hjs, h⟩ := bind_ok.mp h
      cases h
      exact ⟨readable_toJson v hv.1 hj, readable_allToJson vs hv.2 hjs⟩

theorem readable_itemsToJson : (items : List (PyValue × PyValue)) → {members : List (List Char × Json)} →
    ItemsWritten items → itemsToJson isPrintable items = .ok members → Json.MembersReadable members
  | [], members, _, h => by
      cases h
      exact trivial
  | (k, v) :: items, members, hv, h => by
      obtain ⟨key, hkey, h⟩ := bind_ok.mp h
      obtain ⟨j, hj, h⟩ := bind_ok.mp h
      obtain ⟨members', hmembers, h⟩ := bind_ok.mp h
      cases h
      exact ⟨readable_toJson v hv.1 hj, readable_itemsToJson items hv.2 hmembers⟩
end

end Encoding

end PyValue
