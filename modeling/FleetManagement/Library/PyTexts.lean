import FleetManagement.Library.JsonText
import FleetManagement.Library.PyFormat

/-!
# Texts within values

What holds of all texts of a value, and of the texts that `repr`, `str` and `ascii` put together from them.
-/

namespace PyValue

mutual
/-- Every text in the value satisfies `p`: strings, names of fields, and what objects answer. -/
def allTexts (p : List Char → Bool) : PyValue → Bool
  | .str s | .float s _ => p s
  | .exception object | .model object (.error _) => p object.str && p object.repr
  | .dict items => itemsTexts p items
  | .list items | .tuple items | .set items | .frozenset items => everyTexts p items
  | .namedTuple name fields defaults items =>
      p name && fields.all p && everyTexts p defaults && everyTexts p items
  | .dataclass object fields => p object.str && p object.repr && fieldsTexts p fields
  | .model object (.ok dump) => p object.str && p object.repr && dump.allTexts p
  | _ => true

def everyTexts (p : List Char → Bool) : List PyValue → Bool
  | [] => true
  | v :: vs => v.allTexts p && everyTexts p vs

def itemsTexts (p : List Char → Bool) : List (PyValue × PyValue) → Bool
  | [] => true
  | (k, v) :: items => k.allTexts p && v.allTexts p && itemsTexts p items

def fieldsTexts (p : List Char → Bool) : List (List Char × PyValue) → Bool
  | [] => true
  | (name, v) :: fields => p name && v.allTexts p && fieldsTexts p fields
end

section Elements
variable {p : List Char → Bool}

end Elements

/-! ## Dictionaries of dataclasses -/

section Dictionaries
variable {p : List Char → Bool}

mutual
theorem allTexts_asdict :
    (v : PyValue) → {d : PyValue} → v.allTexts p = true → asdict v = .ok d → d.allTexts p = true
  | .dataclass _ fields, d, hv, h => by
      obtain ⟨items, hitems, hd⟩ := bind_ok.mp h
      cases hd
      rw [allTexts, Bool.and_eq_true] at hv
      exact itemsTexts_asdictFields fields hv.2 hitems
  | .list items, d, hv, h | .tuple items, d, hv, h => by
      obtain ⟨vs, hvs, hd⟩ := bind_ok.mp h
      cases hd
      exact everyTexts_asdictAll items hv hvs
  | .namedTuple _ _ _ items, d, hv, h => by
      obtain ⟨vs, hvs, hd⟩ := bind_ok.mp h
      cases hd
      rw [allTexts, Bool.and_eq_true] at hv ⊢
      exact ⟨hv.1, everyTexts_asdictAll items hv.2 hvs⟩
  | .dict items, d, hv, h => by
      obtain ⟨ds, hds, hd⟩ := bind_ok.mp h
      cases hd
      exact itemsTexts_asdictItems items hv hds
  | .none, d, hv, h | .bool _, d, hv, h | .int _, d, hv, h | .float _ _, d, hv, h | .str _, d, hv, h
  | .exception _, d, hv, h | .set _, d, hv, h | .frozenset _, d, hv, h | .model _ _, d, hv, h
  | .generator, d, hv, h => by
      simp only [asdict] at h
      split at h
      · cases h
        exact hv
      · cases h

theorem everyTexts_asdictAll : (vs : List PyValue) → {ds : List PyValue} → everyTexts p vs = true →
    asdictAll vs = .ok ds → everyTexts p ds = true
  | [], ds, _, h => by
      cases h
      rfl
  | v :: vs, ds, hv, h => by
      obtain ⟨d, hd, h⟩ := bind_ok.mp h
      obtain ⟨ds', hds, h⟩ := bind_ok.mp h
      cases h
      rw [everyTexts, Bool.and_eq_true] at hv ⊢
      exact ⟨allTexts_asdict v hv.1 hd, everyTexts_asdictAll vs hv.2 hds⟩

theorem itemsTexts_asdictItems : (items : List (PyValue × PyValue)) → {ds : List (PyValue × PyValue)} →
    itemsTexts p items = true → asdictItems items = .ok ds → itemsTexts p ds = true
  | [], ds, _, h => by
      cases h
      rfl
  | (k, v) :: items, ds, hv, h => by
      obtain ⟨k', hk, h⟩ := bind_ok.mp h
      obtain ⟨v', hv', h⟩ := bind_ok.mp h
      split at h
      · obtain ⟨ds', hds, h⟩ := bind_ok.mp h
        cases h
        simp only [itemsTexts, Bool.and_eq_true] at hv ⊢
        exact ⟨⟨allTexts_asdict k hv.1.1 hk, allTexts_asdict v hv.1.2 hv'⟩, itemsTexts_asdictItems items hv.2 hds⟩
      · cases h

theorem itemsTexts_asdictFields : (fields : List (List Char × PyValue)) → {ds : List (PyValue × PyValue)} →
    fieldsTexts p fields = true → asdictFields fields = .ok ds → itemsTexts p ds = true
  | [], ds, _, h => by
      cases h
      rfl
  | (name, v) :: fields, ds, hv, h => by
      obtain ⟨v', hv', h⟩ := bind_ok.mp h
      obtain ⟨ds', hds, h⟩ := bind_ok.mp h
      cases h
      simp only [fieldsTexts, itemsTexts, Bool.and_eq_true] at hv ⊢
      exact ⟨⟨hv.1.1, allTexts_asdict v hv.1.2 hv'⟩, itemsTexts_asdictFields fields hv.2 hds⟩
end

end Dictionaries

/-! ## Texts put together -/

/-- The characters of the words that `repr` adds. -/
def wordChars : List Char := "()<> -0123456789FNTabcefgjlnorstuz".toList

/-- The characters that `repr` and padding put between texts. -/
def joints : List Char := "'\"[]()\x7b\x7d,: =".toList

/-- What `repr` and `ascii` keep of a property of texts. -/
structure TextClass (isPrintable : Char → Bool) (p : List Char → Bool) : Prop where
  word : ∀ s : List Char, (∀ c ∈ s, c ∈ wordChars) → p s = true
  join : ∀ {u v : List Char} {c : Char}, c ∈ joints → p u = true → p v = true → p (u ++ c :: v) = true
  escape : ∀ {s : List Char} (q : Char), p s = true → p (s.flatMap (reprChar isPrintable q)) = true
  ascii : ∀ {s : List Char}, p s = true →
    p (s.flatMap fun c => if c.toNat < 128 then [c] else escapeNumber c) = true
  take : ∀ {s : List Char} (n : Nat), p s = true → p (s.take n) = true

namespace TextClass

variable {isPrintable : Char → Bool} {p : List Char → Bool} {u v : List Char} {c : Char}

theorem nil (h : TextClass isPrintable p) : p [] = true := h.word [] (by decide)

theorem after (h : TextClass isPrintable p) (hc : c ∈ joints) (hv : p v = true) : p (c :: v) = true :=
  h.join (u := []) hc h.nil hv

theorem before (h : TextClass isPrintable p) (hc : c ∈ joints) (hu : p u = true) : p (u ++ [c]) = true :=
  h.join hc hu h.nil

theorem within (h : TextClass isPrintable p) {d : Char} (hc : c ∈ joints) (hd : d ∈ joints) (hu : p u = true) :
    p (c :: (u ++ [d])) = true := h.after hc (h.before hd hu)

/-- A comma or a colon, and a blank. -/
theorem spaced (h : TextClass isPrintable p) (hc : c ∈ joints) (hu : p u = true) (hv : p v = true) :
    p (u ++ ([c, ' '] ++ v)) = true := h.join hc hu (h.after (by decide) hv)

theorem str (h : TextClass isPrintable p) {s : List Char} (hs : p s = true) : p (reprStr isPrintable s) = true := by
  unfold reprStr
  split
  · exact h.within (by decide) (by decide) (h.escape _ hs)
  · exact h.within (by decide) (by decide) (h.escape _ hs)

theorem int (h : TextClass isPrintable p) (n : Int) : p (toString n).toList = true :=
  have hdigits : "-0123456789aeflnrstu".toList ⊆ wordChars := by decide
  h.word _ fun _ hc => hdigits (Json.mem_toString_int hc)

mutual
theorem repr (h : TextClass isPrintable p) :
    (v : PyValue) → v.allTexts p = true → p (v.repr isPrintable) = true
  | .none, _ => h.word "None".toList (by decide)
  | .bool true, _ => h.word "True".toList (by decide)
  | .bool false, _ => h.word "False".toList (by decide)
  | .int n, _ => h.int n
  | .float _ _, hv => hv
  | .str s, hv => h.str hv
  | .exception _, hv | .model _ (.error _), hv => (Bool.and_eq_true _ _ ▸ hv).2
  | .dataclass _ _, hv | .model _ (.ok _), hv => by
      simp only [allTexts, Bool.and_eq_true] at hv
      exact hv.1.2
  | .dict items, hv => h.within (by decide) (by decide) (reprItems h items hv)
  | .list items, hv => h.within (by decide) (by decide) (reprAll h items hv)
  | .tuple [], _ => h.word "()".toList (by decide)
  | .tuple [v], hv => by
      simp only [allTexts, everyTexts, Bool.and_true] at hv
      exact h.after (by decide) (h.join (by decide) (repr h v hv) (h.after (by decide) h.nil))
  | .tuple (v :: w :: vs), hv => h.within (by decide) (by decide) (reprAll h (v :: w :: vs) hv)
  | .namedTuple name fields _ items, hv => by
      simp only [allTexts, Bool.and_eq_true] at hv
      exact h.join (by decide) hv.1.1.1 (h.before (by decide) (reprFields h fields items hv.1.1.2 hv.2))
  | .set [], _ => h.word "set()".toList (by decide)
  | .set (v :: vs), hv => h.within (by decide) (by decide) (reprAll h (v :: vs) hv)
  | .frozenset [], _ => h.word "frozenset()".toList (by decide)
  | .frozenset (v :: vs), hv => by
      have hall := h.join (c := '\x7d') (v := [')']) (by decide) (reprAll h (v :: vs) hv) (h.after (by decide) h.nil)
      exact h.join (u := "frozenset(".toList) (by decide) (h.word _ (by decide)) hall
  | .generator, _ => h.word "<generator object>".toList (by decide)

theorem reprAll (h : TextClass isPrintable p) :
    (vs : List PyValue) → everyTexts p vs = true → p (PyValue.reprAll isPrintable vs) = true
  | [], _ => h.nil
  | [v], hv => by
      simp only [everyTexts, Bool.and_true] at hv
      exact repr h v hv
  | v :: w :: vs, hv => by
      rw [everyTexts, Bool.and_eq_true] at hv
      exact h.spaced (by decide) (repr h v hv.1) (reprAll h (w :: vs) hv.2)

theorem reprItems (h : TextClass isPrintable p) :
    (items : List (PyValue × PyValue)) → itemsTexts p items = true → p (PyValue.reprItems isPrintable items) = true
  | [], _ => h.nil
  | [(k, v)], hv => by
      simp only [itemsTexts, Bool.and_true, Bool.and_eq_true] at hv
      exact h.spaced (by decide) (repr h k hv.1) (repr h v hv.2)
  | (k, v) :: q :: items, hv => by
      rw [itemsTexts, Bool.and_eq_true, Bool.and_eq_true] at hv
      exact h.spaced (by decide) (h.spaced (by decide) (repr h k hv.1.1) (repr h v hv.1.2))
        (reprItems h (q :: items) hv.2)

theorem reprFields (h : TextClass isPrintable p) : (fields : List (List Char)) → (vs : List PyValue) →
    fields.all p = true → everyTexts p vs = true → p (PyValue.reprFields isPrintable fields vs) = true
  | [], vs, _, _ => by
      simp only [PyValue.reprFields]
      exact h.nil
  | [_], [], _, _ => h.nil
  | [name], [v], hname, hv => by
      simp only [everyTexts, List.all_cons, List.all_nil, Bool.and_true] at hname hv
      exact h.join (by decide) hname (repr h v hv)
  | [name], v :: w :: vs, hname, hv => by
      rw [everyTexts, Bool.and_eq_true] at hv
      rw [List.all_cons, Bool.and_eq_true] at hname
      exact h.join (by decide) hname.1 (h.spaced (by decide) (repr h v hv.1) (reprFields h [] (w :: vs) rfl hv.2))
  | _ :: _ :: _, [], _, _ => h.nil
  | name :: name' :: names, v :: vs, hname, hv => by
      rw [everyTexts, Bool.and_eq_true] at hv
      rw [List.all_cons, Bool.and_eq_true] at hname
      exact h.join (by decide) hname.1
        (h.spaced (by decide) (repr h v hv.1) (reprFields h (name' :: names) vs hname.2 hv.2))
end

theorem toStr (h : TextClass isPrintable p) {v : PyValue} (hv : v.allTexts p = true) :
    p (v.toStr isPrintable) = true := by
  cases v with
  | str s => exact hv
  | exception object => exact (Bool.and_eq_true _ _ ▸ hv).1
  | dataclass object fields =>
      simp only [allTexts, Bool.and_eq_true] at hv
      exact hv.1.1
  | model object dump =>
      cases dump with
      | error e => exact (Bool.and_eq_true _ _ ▸ hv).1
      | ok dump =>
          simp only [allTexts, Bool.and_eq_true] at hv
          exact hv.1.1
  | _ => exact h.repr _ hv

theorem blanks (h : TextClass isPrintable p) (n : Nat) : p (List.replicate n ' ') = true :=
  h.word _ fun c hc => by
    rw [List.eq_of_mem_replicate hc]
    decide

theorem padded (h : TextClass isPrintable p) (n : Nat) (hv : p v = true) :
    p (List.replicate n ' ' ++ v) = true ∧ p (v ++ List.replicate n ' ') = true := by
  constructor
  · induction n with
    | zero => exact hv
    | succ n ih => exact h.after (by decide) ih
  · cases n with
    | zero => simpa using hv
    | succ n => exact h.join (by decide) hv (h.blanks n)

theorem fit (h : TextClass isPrintable p) (spec : PyFormat.Spec) (hv : p v = true) : p (PyFormat.fit spec v) = true := by
  unfold PyFormat.fit
  dsimp only
  cases spec.precision with
  | none =>
      dsimp only
      split
      · exact (h.padded _ hv).2
      · exact (h.padded _ hv).1
  | some n =>
      dsimp only
      split
      · exact (h.padded _ (h.take _ hv)).2
      · exact (h.padded _ (h.take _ hv)).1

end TextClass

end PyValue
