import FleetManagement.Privacy.Values
import Mathlib.Data.List.Forall2

/-!
# Secrets in nested values

Two values that differ only under secret keys, or in names with the same first character, are the same after
sanitizing. They stay two such values when dataclasses become dictionaries on the way.
-/

namespace FleetManagement

/-! ## Values that differ in secrets -/

def isScalar : PyValue → Bool
  | .none | .bool _ | .int _ | .float _ _ | .str _ => true
  | _ => false

/-- Keys of dictionaries. -/
inductive IsKey : PyValue → Prop where
  | scalar {k : PyValue} (h : isScalar k = true) : IsKey k
  | tuple {ks : List PyValue} (h : ∀ k ∈ ks, IsKey k) : IsKey (.tuple ks)

/-- Dictionaries, lists, tuples, models and dataclasses over scalars. -/
inductive Nested : PyValue → Prop where
  | scalar {v : PyValue} (h : isScalar v = true) : Nested v
  | list {vs : List PyValue} (h : ∀ v ∈ vs, Nested v) : Nested (.list vs)
  | tuple {vs : List PyValue} (h : ∀ v ∈ vs, Nested v) : Nested (.tuple vs)
  | dict {items : List (PyValue × PyValue)} (hkeys : ∀ p ∈ items, IsKey p.1) (h : ∀ p ∈ items, Nested p.2) :
      Nested (.dict items)
  | dataclass {object : PyInstance} {fields : List (Text × PyValue)} (h : ∀ p ∈ fields, Nested p.2) :
      Nested (.dataclass object fields)
  | model {object : PyInstance} {dump : PyValue} (hcopies : object.copyable = true) (h : Nested dump) :
      Nested (.model object (.ok dump))

section Secrets
variable (t : TextTables)

/-- What may differ under a key. -/
def MayDiffer (key : Text) (v w : PyValue) : Prop :=
  (isSecretKey t key = true ∧ Nested v ∧ Nested w) ∨
    (isNameKey t key = true ∧ ∃ c s s', v = .str (c :: s) ∧ w = .str (c :: s'))

/-- The same values, but for what stands under secret keys and for names with the same first character. The
texts of the objects may differ with what they hold. -/
inductive SameButSecrets : PyValue → PyValue → Prop where
  | scalar {v : PyValue} (h : isScalar v = true) : SameButSecrets v v
  | list {vs ws : List PyValue} (hlength : vs.length = ws.length)
      (h : ∀ p ∈ vs.zip ws, SameButSecrets p.1 p.2) : SameButSecrets (.list vs) (.list ws)
  | tuple {vs ws : List PyValue} (hlength : vs.length = ws.length)
      (h : ∀ p ∈ vs.zip ws, SameButSecrets p.1 p.2) : SameButSecrets (.tuple vs) (.tuple ws)
  | dict {items items' : List (PyValue × PyValue)} (hkeys : ∀ p ∈ items, IsKey p.1)
      (hsame : items.map Prod.fst = items'.map Prod.fst)
      (h : ∀ p ∈ items.zip items', ¬MayDiffer t (keyText t p.1.1) p.1.2 p.2.2 → SameButSecrets p.1.2 p.2.2) :
      SameButSecrets (.dict items) (.dict items')
  | dataclass {object object' : PyInstance} {fields fields' : List (Text × PyValue)}
      (hsame : fields.map Prod.fst = fields'.map Prod.fst)
      (h : ∀ p ∈ fields.zip fields', ¬MayDiffer t p.1.1 p.1.2 p.2.2 → SameButSecrets p.1.2 p.2.2) :
      SameButSecrets (.dataclass object fields) (.dataclass object' fields')
  | model {object object' : PyInstance} {dump dump' : PyValue} (hcopies : object.copyable = true)
      (hcopies' : object'.copyable = true) (h : SameButSecrets dump dump') :
      SameButSecrets (.model object (.ok dump)) (.model object' (.ok dump'))

end Secrets

section Lemmas
variable {t : TextTables} {v w : PyValue}

/-! ## Dictionaries of dataclasses -/

theorem asdict_scalar (h : isScalar v = true) : PyValue.asdict v = .ok v := by
  cases v <;> first | rfl | cases h

theorem IsKey.hashable {k : PyValue} (h : IsKey k) : k.hashable = true := by
  induction h with
  | @scalar k h => cases k <;> first | rfl | cases h
  | @tuple ks h ih =>
      show PyValue.allHashable ks = true
      clear h
      induction ks with
      | nil => rfl
      | cons k ks ihks =>
          simp only [PyValue.allHashable, ih k (List.mem_cons_self ..),
            ihks fun k hk => ih k (List.mem_cons_of_mem _ hk), Bool.and_self]

theorem asdictAll_same {vs : List PyValue} (h : ∀ v ∈ vs, PyValue.asdict v = .ok v) :
    PyValue.asdictAll vs = .ok vs := by
  induction vs with
  | nil => rfl
  | cons v vs ih =>
      simp only [PyValue.asdictAll, h v (List.mem_cons_self ..),
        ih fun w hw => h w (List.mem_cons_of_mem _ hw)]
      rfl

theorem IsKey.asdict {k : PyValue} (h : IsKey k) : PyValue.asdict k = .ok k := by
  induction h with
  | scalar h => exact asdict_scalar h
  | @tuple ks h ih =>
      simp only [PyValue.asdict, asdictAll_same ih]
      rfl

/-- Both lists are converted where their elements are, one by one. -/
theorem asdictAll_both {R : PyValue → PyValue → Prop} {vs ws : List PyValue}
    (h : List.Forall₂ (fun v w => ∃ d d', PyValue.asdict v = .ok d ∧ PyValue.asdict w = .ok d' ∧ R d d') vs ws) :
    ∃ ds ds', PyValue.asdictAll vs = .ok ds ∧ PyValue.asdictAll ws = .ok ds' ∧ List.Forall₂ R ds ds' := by
  induction h with
  | nil => exact ⟨[], [], rfl, rfl, .nil⟩
  | cons hvw h ih =>
      obtain ⟨d, d', hd, hd', hR⟩ := hvw
      obtain ⟨ds, ds', hds, hds', hRs⟩ := ih
      refine ⟨d :: ds, d' :: ds', ?_, ?_, .cons hR hRs⟩
      · simp only [PyValue.asdictAll, hd, hds]
        rfl
      · simp only [PyValue.asdictAll, hd', hds']
        rfl

/-- Entries with the same key, and values that are related under it. -/
def EntriesAlike (R : PyValue → PyValue → PyValue → Prop) (p q : PyValue × PyValue) : Prop :=
  p.1 = q.1 ∧ IsKey p.1 ∧ R p.1 p.2 q.2

theorem asdictItems_both {R : PyValue → PyValue → PyValue → Prop} {items items' : List (PyValue × PyValue)}
    (h : List.Forall₂ (EntriesAlike fun k v w => ∃ d d', PyValue.asdict v = .ok d ∧ PyValue.asdict w = .ok d' ∧
      R k d d') items items') :
    ∃ ds ds', PyValue.asdictItems items = .ok ds ∧ PyValue.asdictItems items' = .ok ds' ∧
      List.Forall₂ (EntriesAlike R) ds ds' := by
  induction h with
  | nil => exact ⟨[], [], rfl, rfl, .nil⟩
  | @cons p q items items' hpq h ih =>
      obtain ⟨k, v⟩ := p
      obtain ⟨k', w⟩ := q
      obtain ⟨rfl, hk, d, d', hd, hd', hR⟩ := hpq
      obtain ⟨ds, ds', hds, hds', hRs⟩ := ih
      refine ⟨(k, d) :: ds, (k, d') :: ds', ?_, ?_, .cons ⟨rfl, hk, hR⟩ hRs⟩
      · simp only [PyValue.asdictItems, hk.asdict, hd, hds, bind, Except.bind, hk.hashable, if_true]
        rfl
      · simp only [PyValue.asdictItems, hk.asdict, hd', hds', bind, Except.bind, hk.hashable, if_true]
        rfl

/-- The fields of a dataclass become entries under their names. -/
theorem asdictFields_both {R : PyValue → PyValue → PyValue → Prop} {fields fields' : List (Text × PyValue)}
    (h : List.Forall₂ (fun p q => p.1 = q.1 ∧ ∃ d d', PyValue.asdict p.2 = .ok d ∧
      PyValue.asdict q.2 = .ok d' ∧ R (.str p.1) d d') fields fields') :
    ∃ ds ds', PyValue.asdictFields fields = .ok ds ∧ PyValue.asdictFields fields' = .ok ds' ∧
      List.Forall₂ (EntriesAlike R) ds ds' := by
  induction h with
  | nil => exact ⟨[], [], rfl, rfl, .nil⟩
  | @cons p q fields fields' hpq h ih =>
      obtain ⟨name, v⟩ := p
      obtain ⟨name', w⟩ := q
      obtain ⟨rfl, d, d', hd, hd', hR⟩ := hpq
      obtain ⟨ds, ds', hds, hds', hRs⟩ := ih
      refine ⟨(.str name, d) :: ds, (.str name, d') :: ds', ?_, ?_, .cons ⟨rfl, .scalar rfl, hR⟩ hRs⟩
      · simp only [PyValue.asdictFields, hd, hds]
        rfl
      · simp only [PyValue.asdictFields, hd', hds']
        rfl

theorem exists_mem_of_forall₂ {α β : Type} {R : α → β → Prop} {as : List α} {bs : List β}
    (h : List.Forall₂ R as bs) : ∀ a ∈ as, ∃ b ∈ bs, R a b := by
  induction h with
  | nil => exact fun a ha => by cases ha
  | cons hab h ih =>
      intro a ha
      rcases List.mem_cons.mp ha with rfl | ha
      · exact ⟨_, List.mem_cons_self, hab⟩
      · obtain ⟨b, hb, hR⟩ := ih a ha
        exact ⟨b, List.mem_cons_of_mem _ hb, hR⟩

theorem exists_of_forall₂ {α β : Type} {R : α → β → Prop} {as : List α} {bs : List β}
    (h : List.Forall₂ R as bs) : ∀ a ∈ as, ∃ b, R a b := by
  intro a ha
  obtain ⟨b, -, hab⟩ := exists_mem_of_forall₂ h a ha
  exact ⟨b, hab⟩

theorem nested_of_entries {ds ds' : List (PyValue × PyValue)}
    (h : List.Forall₂ (EntriesAlike fun _ d _ => Nested d) ds ds') : Nested (.dict ds) := by
  refine .dict (fun p hp => ?_) fun p hp => ?_
  · obtain ⟨q, -, hk, -⟩ := exists_of_forall₂ h p hp
    exact hk
  · obtain ⟨q, -, -, hd⟩ := exists_of_forall₂ h p hp
    exact hd

/-- A nested value is converted to a nested value. -/
theorem Nested.asdict (h : Nested v) : ∃ d, PyValue.asdict v = .ok d ∧ Nested d := by
  have hboth : ∀ {w}, (∃ d, PyValue.asdict w = .ok d ∧ Nested d) →
      ∃ d d', PyValue.asdict w = .ok d ∧ PyValue.asdict w = .ok d' ∧ Nested d := by
    rintro w ⟨d, hd, hnested⟩
    exact ⟨d, d, hd, hd, hnested⟩
  induction h with
  | scalar h => exact ⟨_, asdict_scalar h, .scalar h⟩
  | @list vs h ih =>
      obtain ⟨ds, ds', hds, -, hR⟩ := asdictAll_both (R := fun d _ => Nested d)
        (List.forall₂_same.mpr fun v hv => hboth (ih v hv))
      refine ⟨.list ds, ?_, .list fun d hd => (exists_of_forall₂ hR d hd).choose_spec⟩
      simp only [PyValue.asdict, hds]
      rfl
  | @tuple vs h ih =>
      obtain ⟨ds, ds', hds, -, hR⟩ := asdictAll_both (R := fun d _ => Nested d)
        (List.forall₂_same.mpr fun v hv => hboth (ih v hv))
      refine ⟨.tuple ds, ?_, .tuple fun d hd => (exists_of_forall₂ hR d hd).choose_spec⟩
      simp only [PyValue.asdict, hds]
      rfl
  | @dict items hkeys h ih =>
      obtain ⟨ds, ds', hds, -, hR⟩ := asdictItems_both (R := fun _ d _ => Nested d)
        (List.forall₂_same.mpr fun p hp => ⟨rfl, hkeys p hp, hboth (ih p hp)⟩)
      refine ⟨.dict ds, ?_, nested_of_entries hR⟩
      simp only [PyValue.asdict, hds]
      rfl
  | @dataclass object fields h ih =>
      obtain ⟨ds, ds', hds, -, hR⟩ := asdictFields_both (R := fun _ d _ => Nested d)
        (List.forall₂_same.mpr fun p hp => ⟨rfl, hboth (ih p hp)⟩)
      refine ⟨.dict ds, ?_, nested_of_entries hR⟩
      simp only [PyValue.asdict, hds]
      rfl
  | @model object dump hcopies h ih =>
      refine ⟨.model object (.ok dump), ?_, .model hcopies h⟩
      simp only [PyValue.asdict, PyValue.copies, hcopies, if_true]
      rfl

/-! ## Two values that stay the same but for secrets -/

theorem zip_fst {α β : Type} {as bs : List (α × β)} (h : as.map Prod.fst = bs.map Prod.fst) :
    as.length = bs.length ∧ ∀ p ∈ as.zip bs, p.1.1 = p.2.1 := by
  induction as generalizing bs with
  | nil =>
      cases bs with
      | nil => exact ⟨rfl, fun p hp => by cases hp⟩
      | cons b bs => cases h
  | cons a as ih =>
      cases bs with
      | nil => cases h
      | cons b bs =>
          obtain ⟨hab, htail⟩ := List.cons.inj h
          obtain ⟨hlength, hfst⟩ := ih htail
          refine ⟨congrArg Nat.succ hlength, fun p hp => ?_⟩
          rcases List.mem_cons.mp hp with rfl | hp
          · exact hab
          · exact hfst p hp

theorem MayDiffer.asdict {key : Text} (h : MayDiffer t key v w) :
    ∃ d d', PyValue.asdict v = .ok d ∧ PyValue.asdict w = .ok d' ∧ MayDiffer t key d d' := by
  rcases h with ⟨hsecret, hv, hw⟩ | ⟨hname, c, s, s', rfl, rfl⟩
  · obtain ⟨d, hd, hnested⟩ := hv.asdict
    obtain ⟨d', hd', hnested'⟩ := hw.asdict
    exact ⟨d, d', hd, hd', .inl ⟨hsecret, hnested, hnested'⟩⟩
  · exact ⟨_, _, rfl, rfl, .inr ⟨hname, c, s, s', rfl, rfl⟩⟩

/-- What stands under a key in two values. -/
def AgreeUnder (t : TextTables) (k v w : PyValue) : Prop :=
  MayDiffer t (keyText t k) v w ∨ SameButSecrets t v w

theorem sameButSecrets_dict {ds ds' : List (PyValue × PyValue)}
    (h : List.Forall₂ (EntriesAlike (AgreeUnder t)) ds ds') : SameButSecrets t (.dict ds) (.dict ds') := by
  refine .dict (fun p hp => ?_) ?_ fun p hp hno => ?_
  · obtain ⟨q, -, hk, -⟩ := exists_of_forall₂ h p hp
    exact hk
  · induction h with
    | nil => rfl
    | cons hpq h ih => simp only [List.map_cons, hpq.1, ih]
  · obtain ⟨-, -, hagree⟩ := (List.forall₂_iff_zip.mp h).2 hp
    exact hagree.resolve_left hno

/-- The dictionaries of two such values are two such values. -/
theorem SameButSecrets.asdict (h : SameButSecrets t v w) :
    ∃ d d', PyValue.asdict v = .ok d ∧ PyValue.asdict w = .ok d' ∧ SameButSecrets t d d' := by
  induction h with
  | scalar h => exact ⟨_, _, asdict_scalar h, asdict_scalar h, .scalar h⟩
  | @list vs ws hlength h ih =>
      obtain ⟨ds, ds', hds, hds', hR⟩ := asdictAll_both (R := SameButSecrets t)
        (List.forall₂_iff_zip.mpr ⟨hlength, fun {a b} hp => ih (a, b) hp⟩)
      obtain ⟨hlength, hzip⟩ := List.forall₂_iff_zip.mp hR
      refine ⟨.list ds, .list ds', ?_, ?_, .list hlength fun p hp => hzip hp⟩
      · simp only [PyValue.asdict, hds]
        rfl
      · simp only [PyValue.asdict, hds']
        rfl
  | @tuple vs ws hlength h ih =>
      obtain ⟨ds, ds', hds, hds', hR⟩ := asdictAll_both (R := SameButSecrets t)
        (List.forall₂_iff_zip.mpr ⟨hlength, fun {a b} hp => ih (a, b) hp⟩)
      obtain ⟨hlength, hzip⟩ := List.forall₂_iff_zip.mp hR
      refine ⟨.tuple ds, .tuple ds', ?_, ?_, .tuple hlength fun p hp => hzip hp⟩
      · simp only [PyValue.asdict, hds]
        rfl
      · simp only [PyValue.asdict, hds']
        rfl
  | @dict items items' hkeys hsame h ih =>
      obtain ⟨hlength, hfst⟩ := zip_fst hsame
      obtain ⟨ds, ds', hds, hds', hR⟩ := asdictItems_both (R := AgreeUnder t)
        (List.forall₂_iff_zip.mpr ⟨hlength, fun {p q} hp => by
          refine ⟨hfst _ hp, hkeys p (List.of_mem_zip hp).1, ?_⟩
          by_cases hdiffer : MayDiffer t (keyText t p.1) p.2 q.2
          · obtain ⟨d, d', hd, hd', hdiffer⟩ := hdiffer.asdict
            exact ⟨d, d', hd, hd', .inl hdiffer⟩
          · obtain ⟨d, d', hd, hd', hsame⟩ := ih (p, q) hp hdiffer
            exact ⟨d, d', hd, hd', .inr hsame⟩⟩)
      refine ⟨.dict ds, .dict ds', ?_, ?_, sameButSecrets_dict hR⟩
      · simp only [PyValue.asdict, hds]
        rfl
      · simp only [PyValue.asdict, hds']
        rfl
  | @dataclass object object' fields fields' hsame h ih =>
      obtain ⟨hlength, hfst⟩ := zip_fst hsame
      obtain ⟨ds, ds', hds, hds', hR⟩ := asdictFields_both (R := AgreeUnder t)
        (List.forall₂_iff_zip.mpr ⟨hlength, fun {p q} hp => by
          refine ⟨hfst _ hp, ?_⟩
          by_cases hdiffer : MayDiffer t p.1 p.2 q.2
          · obtain ⟨d, d', hd, hd', hdiffer⟩ := hdiffer.asdict
            exact ⟨d, d', hd, hd', .inl hdiffer⟩
          · obtain ⟨d, d', hd, hd', hsame⟩ := ih (p, q) hp hdiffer
            exact ⟨d, d', hd, hd', .inr hsame⟩⟩)
      refine ⟨.dict ds, .dict ds', ?_, ?_, sameButSecrets_dict hR⟩
      · simp only [PyValue.asdict, hds]
        rfl
      · simp only [PyValue.asdict, hds']
        rfl
  | @model object object' dump dump' hcopies hcopies' h ih =>
      refine ⟨.model object (.ok dump), .model object' (.ok dump'), ?_, ?_, .model hcopies hcopies' h⟩
      · simp only [PyValue.asdict, PyValue.copies, hcopies, if_true]
        rfl
      · simp only [PyValue.asdict, PyValue.copies, hcopies', if_true]
        rfl

/-! ## The same result -/

/-- Both values are sanitized, with the same result. -/
def SameResult (t : TextTables) (v w : PyValue) : Prop :=
  ∃ r, sanitizeValue t v = .ok r ∧ sanitizeValue t w = .ok r

theorem SameButSecrets.eq_str {s : Text} (h : SameButSecrets t v w) : v = .str s ↔ w = .str s := by
  cases h with
  | scalar h => exact Iff.rfl
  | _ => exact iff_of_false (fun hv => by cases hv) fun hw => by cases hw

theorem sanitizeItem_agree {key : Text} (h : SameButSecrets t v w) (hresult : SameResult t v w) :
    ∃ r, sanitizeItem t key v = .ok r ∧ sanitizeItem t key w = .ok r := by
  cases hsecret : isSecretKey t key with
  | true => exact ⟨_, sanitizeItem_secret hsecret, sanitizeItem_secret hsecret⟩
  | false =>
      by_cases hname : isNameKey t key = true ∧ ∃ s, v = .str s
      · obtain ⟨hname, s, rfl⟩ := hname
        obtain rfl := h.eq_str.mp rfl
        exact ⟨_, sanitizeItem_name hsecret hname, sanitizeItem_name hsecret hname⟩
      · have hv : isNameKey t key = true → ∀ s, v ≠ .str s := fun hk s hs => hname ⟨hk, s, hs⟩
        have hw : isNameKey t key = true → ∀ s, w ≠ .str s := fun hk s hs =>
          hname ⟨hk, s, h.eq_str.mpr hs⟩
        rw [sanitizeItem_other hsecret hv, sanitizeItem_other hsecret hw]
        exact hresult

/-- The name rule looks at the first character only. -/
theorem MayDiffer.sanitizeItem {key : Text} (h : MayDiffer t key v w) :
    ∃ r, FleetManagement.sanitizeItem t key v = .ok r ∧ FleetManagement.sanitizeItem t key w = .ok r := by
  cases hsecret : isSecretKey t key with
  | true => exact ⟨_, sanitizeItem_secret hsecret, sanitizeItem_secret hsecret⟩
  | false =>
      rcases h with ⟨h, -⟩ | ⟨hname, c, s, s', rfl, rfl⟩
      · rw [hsecret] at h
        cases h
      · exact ⟨_, sanitizeItem_name hsecret hname, sanitizeItem_name hsecret hname⟩

/-- A scalar is returned as it is, or with its text sanitized. -/
theorem sanitizeValue_scalar (h : isScalar v = true) : ∃ r, sanitizeValue t v = .ok r := by
  cases v with
  | str s => exact ⟨_, sanitizeValue_str s⟩
  | none | bool _ | int _ | float _ _ =>
      rw [sanitizeValue.eq_def]
      exact ⟨_, rfl⟩
  | _ => cases h

theorem sanitizeValues_agree {vs ws : List PyValue} (h : List.Forall₂ (SameResult t) vs ws) :
    ∃ rs, sanitizeValues t vs = .ok rs ∧ sanitizeValues t ws = .ok rs := by
  induction h with
  | nil => exact ⟨[], by rw [sanitizeValues]; rfl, by rw [sanitizeValues]; rfl⟩
  | cons hvw h ih =>
      obtain ⟨r, hv, hw⟩ := hvw
      obtain ⟨rs, hvs, hws⟩ := ih
      refine ⟨r :: rs, ?_, ?_⟩
      · rw [sanitizeValues, hv, hvs]
        rfl
      · rw [sanitizeValues, hw, hws]
        rfl

theorem sanitizeItems_agree {items items' : List (PyValue × PyValue)}
    (h : List.Forall₂ (fun p q => p.1 = q.1 ∧ ∃ r, sanitizeItem t (keyText t p.1) p.2 = .ok r ∧
      sanitizeItem t (keyText t p.1) q.2 = .ok r) items items') :
    ∃ rs, sanitizeItems t items = .ok rs ∧ sanitizeItems t items' = .ok rs := by
  induction h with
  | nil => exact ⟨[], by rw [sanitizeItems]; rfl, by rw [sanitizeItems]; rfl⟩
  | @cons p q items items' hpq h ih =>
      obtain ⟨k, v⟩ := p
      obtain ⟨k', w⟩ := q
      obtain ⟨rfl, r, hv, hw⟩ := hpq
      obtain ⟨rs, hvs, hws⟩ := ih
      refine ⟨(k, r) :: rs, ?_, ?_⟩
      · rw [sanitizeItems, hv, hvs]
        rfl
      · rw [sanitizeItems, hw, hws]
        rfl

/-- The induction is on the size, which a dataclass loses when it becomes a dictionary. -/
theorem sanitizeValue_agree (n : Nat) (hn : v.weight ≤ n) (h : SameButSecrets t v w) : SameResult t v w := by
  induction n generalizing v w with
  | zero =>
      have := v.weight_pos
      omega
  | succ n ih =>
      have hlist : ∀ {vs ws : List PyValue}, 1 + PyValue.allWeight vs ≤ n + 1 → vs.length = ws.length →
          (∀ p ∈ vs.zip ws, SameButSecrets t p.1 p.2) →
          ∃ rs, sanitizeValues t vs = .ok rs ∧ sanitizeValues t ws = .ok rs := fun hn hlength h => by
        refine sanitizeValues_agree (List.forall₂_iff_zip.mpr ⟨hlength, fun {a b} hp => ih ?_ (h _ hp)⟩)
        have := PyValue.weight_of_mem (List.of_mem_zip hp).1
        omega
      cases h with
      | scalar h =>
          obtain ⟨r, hr⟩ := sanitizeValue_scalar (t := t) h
          exact ⟨r, hr, hr⟩
      | @list vs ws hlength h =>
          obtain ⟨rs, hvs, hws⟩ := hlist hn hlength h
          refine ⟨.list rs, ?_, ?_⟩
          · rw [sanitizeValue, hvs]
            rfl
          · rw [sanitizeValue, hws]
            rfl
      | @tuple vs ws hlength h =>
          obtain ⟨rs, hvs, hws⟩ := hlist hn hlength h
          refine ⟨.tuple rs, ?_, ?_⟩
          · rw [sanitizeValue, hvs]
            rfl
          · rw [sanitizeValue, hws]
            rfl
      | @dict items items' hkeys hsame h =>
          obtain ⟨hlength, hfst⟩ := zip_fst hsame
          obtain ⟨rs, hvs, hws⟩ := sanitizeItems_agree (t := t)
            (List.forall₂_iff_zip.mpr ⟨hlength, fun {p q} hp => by
              refine ⟨hfst _ hp, ?_⟩
              by_cases hdiffer : MayDiffer t (keyText t p.1) p.2 q.2
              · exact hdiffer.sanitizeItem
              · have hsmall := PyValue.weight_of_mem_items (List.of_mem_zip hp).1
                simp only [PyValue.weight] at hn
                exact sanitizeItem_agree (h _ hp hdiffer) (ih (by omega) (h _ hp hdiffer))⟩)
          refine ⟨.dict rs, ?_, ?_⟩
          · rw [sanitizeValue, hvs]
            rfl
          · rw [sanitizeValue, hws]
            rfl
      | @dataclass object object' fields fields' hsame h =>
          have hsame : SameButSecrets t (.dataclass object fields) (.dataclass object' fields') :=
            .dataclass hsame h
          obtain ⟨d, d', hd, hd', hdict⟩ := hsame.asdict
          have := PyValue.weight_asdict_dataclass hd
          obtain ⟨r, hr, hr'⟩ := ih (by omega) hdict
          refine ⟨r, ?_, ?_⟩
          · rw [sanitizeValue_dataclass, hd]
            exact hr
          · rw [sanitizeValue_dataclass, hd']
            exact hr'
      | @model object object' dump dump' hcopies hcopies' h =>
          obtain ⟨r, hr, hr'⟩ := ih (by simp only [PyValue.weight] at hn; omega) h
          exact ⟨r, by rw [sanitizeValue, hr], by rw [sanitizeValue, hr']⟩

end Lemmas

/-- Two values that differ in secrets only are the same after sanitizing. -/
theorem sanitizeValue_hides_secrets (t : TextTables) (v w : PyValue) (h : SameButSecrets t v w) :
    ∃ r, sanitizeValue t v = .ok r ∧ sanitizeValue t w = .ok r :=
  sanitizeValue_agree v.weight le_rfl h

/-- A list with a sign-up and a header in it. -/
def signups (password name header : String) : PyValue :=
  .list [
    .dataclass ⟨name.toList, name.toList, false, true⟩
      [("password".toList, .str password.toList), ("full_name".toList, .str name.toList)],
    .dict [(.str "authorization".toList, .tuple [.int 1, .str header.toList]), (.int 7, .none)]]

theorem signups_hide_secrets :
    ∃ r, sanitizeValue asciiText (signups "hunter2" "Olena" "Basic abc") = .ok r ∧
      sanitizeValue asciiText (signups "s3cret" "Oksana" "none") = .ok r := by
  have hsecret : ∀ key ∈ ["password".toList, "authorization".toList], isSecretKey asciiText key = true := by
    decide +kernel
  have hname : isNameKey asciiText "full_name".toList = true := by decide
  have hheader : ∀ header : Text, Nested (.tuple [.int 1, .str header]) := fun header =>
    .tuple fun v hv => by
      rcases List.mem_pair.mp hv with rfl | rfl
      · exact .scalar rfl
      · exact .scalar rfl
  refine sanitizeValue_hides_secrets asciiText _ _ (.list rfl fun p hp => ?_)
  rcases List.mem_pair.mp hp with rfl | rfl
  · refine .dataclass rfl fun p hp hno => absurd ?_ hno
    rcases List.mem_pair.mp hp with rfl | rfl
    · exact .inl ⟨hsecret _ (by simp), .scalar rfl, .scalar rfl⟩
    · exact .inr ⟨hname, 'O', "lena".toList, "ksana".toList, rfl, rfl⟩
  · refine .dict (fun p hp => ?_) rfl fun p hp hno => ?_
    · rcases List.mem_pair.mp hp with rfl | rfl <;> exact .scalar rfl
    · rcases List.mem_pair.mp hp with rfl | rfl
      · exact absurd (.inl ⟨hsecret _ (by simp [keyText, PyValue.toStr]), hheader _, hheader _⟩) hno
      · exact .scalar rfl

end FleetManagement
