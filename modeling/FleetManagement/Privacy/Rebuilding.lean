import FleetManagement.Privacy.Hits
import FleetManagement.Privacy.StructuredSecrets

/-!
# Values that can be sanitized

Containers are rebuilt from their sanitized elements by a call of their own type. Which values survive that,
and what their results have in common with them.
-/

namespace FleetManagement

/-! ## Results -/

mutual
/-- The result of sanitizing the value can be hashed. -/
def staysHashable : PyValue → Bool
  | .dict _ | .list _ | .set _ | .dataclass _ _ | .model _ (.error _) => false
  | .tuple items => allStayHashable items
  | .namedTuple _ fields defaults _ => PyValue.allHashable (defaults.drop (1 + defaults.length - fields.length))
  | .model _ (.ok dump) => staysHashable dump
  | .exception object => object.hashable
  | _ => true

def allStayHashable : List PyValue → Bool
  | [] => true
  | v :: vs => staysHashable v && allStayHashable vs
end

/-- The operand that the result of sanitizing the value is. -/
def seen : PyValue → PyFormat.Operand
  | .model _ (.ok dump) => seen dump
  | v => PyFormat.operandOf v

/-- The values whose containers can all be rebuilt. -/
inductive Rebuilds (t : TextTables) : PyValue → Prop where
  | none : Rebuilds t .none
  | bool (b : Bool) : Rebuilds t (.bool b)
  | int (n : Int) : Rebuilds t (.int n)
  | float (repr : Text) (kind : PyFloat) : Rebuilds t (.float repr kind)
  | str (s : Text) : Rebuilds t (.str s)
  | exception (object : PyInstance) : Rebuilds t (.exception object)
  | generator : Rebuilds t .generator
  | dict {items : List (PyValue × PyValue)}
      (h : ∀ p ∈ items, isSecretKey t (keyText t p.1) = false → Rebuilds t p.2) : Rebuilds t (.dict items)
  | list {items : List PyValue} (h : ∀ v ∈ items, Rebuilds t v) : Rebuilds t (.list items)
  | tuple {items : List PyValue} (h : ∀ v ∈ items, Rebuilds t v) : Rebuilds t (.tuple items)
  /-- The type can be called with one argument. -/
  | namedTuple {name : Text} {fields : List Text} {defaults items : List PyValue} (hsome : fields ≠ [])
      (hmost : fields.length ≤ 1 + defaults.length) : Rebuilds t (.namedTuple name fields defaults items)
  | set {items : List PyValue} (h : ∀ v ∈ items, Rebuilds t v) (hhash : allStayHashable items = true) :
      Rebuilds t (.set items)
  | frozenset {items : List PyValue} (h : ∀ v ∈ items, Rebuilds t v) (hhash : allStayHashable items = true) :
      Rebuilds t (.frozenset items)
  | dataclass {object : PyInstance} {fields : List (Text × PyValue)} {d : PyValue}
      (hd : PyValue.asdict (.dataclass object fields) = .ok d) (h : Rebuilds t d) :
      Rebuilds t (.dataclass object fields)
  | model {object : PyInstance} {dump : PyValue} (h : Rebuilds t dump) : Rebuilds t (.model object (.ok dump))

/-- What a value has in common with the result of sanitizing it. -/
structure Resembles (v r : PyValue) : Prop where
  operand : PyFormat.operandOf r = seen v
  hashable : r.hashable = staysHashable v

section Rebuilding
variable {t : TextTables} {key : Text} {v r : PyValue}

/-! ## Texts -/

theorem operandOf_str (s : Text) :
    PyFormat.operandOf (.str s) = if s.length = 1 then .character else .other := by
  match s with
  | [] | [_] | _ :: _ :: _ => simp [PyFormat.operandOf]

theorem operandOf_sanitizeText (s : Text) :
    PyFormat.operandOf (.str (sanitizeText t.toCharTables s)) = PyFormat.operandOf (.str s) := by
  rcases keepsLength_sanitizeText t.toCharTables s with h | ⟨hbefore, hafter⟩
  · rw [h]
  · rw [operandOf_str, operandOf_str, if_neg (by omega), if_neg (by omega)]

/-! ## Elements -/

theorem sanitizeValues_ok {vs rs : List PyValue} :
    sanitizeValues t vs = .ok rs ↔ List.Forall₂ (fun v r => sanitizeValue t v = .ok r) vs rs := by
  refine PyValue.listed_ok (by rw [sanitizeValues]; rfl) fun v vs rs => ?_
  rw [sanitizeValues, PyValue.bind_ok]
  constructor
  · rintro ⟨r, hr, h⟩
    obtain ⟨rs', hrs, h⟩ := PyValue.bind_ok.mp h
    exact ⟨r, rs', hr, hrs, (Except.ok.inj h).symm⟩
  · rintro ⟨r, rs', hr, hrs, rfl⟩
    exact ⟨r, hr, PyValue.bind_ok.mpr ⟨rs', hrs, rfl⟩⟩

theorem sanitizeItems_ok {items rs : List (PyValue × PyValue)} :
    sanitizeItems t items = .ok rs ↔ List.Forall₂
      (fun p q => q.1 = p.1 ∧ sanitizeItem t (keyText t p.1) p.2 = .ok q.2) items rs := by
  refine PyValue.listed_ok (by rw [sanitizeItems]; rfl) fun p items rs => ?_
  obtain ⟨k, v⟩ := p
  rw [sanitizeItems, PyValue.bind_ok]
  constructor
  · rintro ⟨r, hr, h⟩
    obtain ⟨rs', hrs, h⟩ := PyValue.bind_ok.mp h
    exact ⟨(k, r), rs', ⟨rfl, hr⟩, hrs, (Except.ok.inj h).symm⟩
  · rintro ⟨⟨k', r⟩, rs', ⟨rfl, hr⟩, hrs, rfl⟩
    exact ⟨r, hr, PyValue.bind_ok.mpr ⟨rs', hrs, rfl⟩⟩

theorem exists_forall₂ {α β : Type} {R : α → β → Prop} {as : List α} :
    (∃ bs, List.Forall₂ R as bs) ↔ ∀ a ∈ as, ∃ b, R a b := by
  constructor
  · rintro ⟨bs, h⟩ a ha
    exact exists_of_forall₂ h a ha
  · intro h
    induction as with
    | nil => exact ⟨[], .nil⟩
    | cons a as ih =>
        obtain ⟨⟨b, hb⟩, has⟩ := List.forall_mem_cons.mp h
        obtain ⟨bs, hbs⟩ := ih has
        exact ⟨b :: bs, .cons hb hbs⟩

theorem sanitizeItem_ok_iff :
    (∃ r, sanitizeItem t key v = .ok r) ↔ (isSecretKey t key = false → ∃ r, sanitizeValue t v = .ok r) := by
  cases hsecret : isSecretKey t key with
  | true => exact ⟨fun _ h => (by cases h), fun _ => ⟨_, sanitizeItem_secret hsecret⟩⟩
  | false =>
      by_cases hname : isNameKey t key = true ∧ ∃ s, v = .str s
      · obtain ⟨hname, s, rfl⟩ := hname
        exact ⟨fun _ _ => ⟨_, sanitizeValue_str s⟩, fun _ => ⟨_, sanitizeItem_name hsecret hname⟩⟩
      · rw [sanitizeItem_other hsecret fun h s hs => hname ⟨h, s, hs⟩]
        exact ⟨fun h _ => h, fun h => h rfl⟩

theorem allHashable_of_resembles {vs rs : List PyValue} (h : List.Forall₂ Resembles vs rs) :
    PyValue.allHashable rs = allStayHashable vs := by
  induction h with
  | nil => rfl
  | cons hvr _ ih => rw [PyValue.allHashable, allStayHashable, hvr.hashable, ih]

theorem resembles_of_values {vs rs : List PyValue} (hrs : sanitizeValues t vs = .ok rs)
    (h : ∀ v ∈ vs, ∀ r, sanitizeValue t v = .ok r → Resembles v r) : List.Forall₂ Resembles vs rs := by
  rw [sanitizeValues_ok, List.forall₂_iff_zip] at hrs
  exact List.forall₂_iff_zip.mpr ⟨hrs.1, fun {v r} hp => h v (List.of_mem_zip hp).1 r (hrs.2 hp)⟩

theorem sanitizeValues_ok_iff {vs : List PyValue} :
    (∃ rs, sanitizeValues t vs = .ok rs) ↔ ∀ v ∈ vs, ∃ r, sanitizeValue t v = .ok r := by
  rw [← exists_forall₂]
  exact exists_congr fun rs => sanitizeValues_ok

theorem sanitizeItems_ok_iff {items : List (PyValue × PyValue)} :
    (∃ rs, sanitizeItems t items = .ok rs) ↔
      ∀ p ∈ items, isSecretKey t (keyText t p.1) = false → ∃ r, sanitizeValue t p.2 = .ok r := by
  simp only [sanitizeItems_ok, exists_forall₂, ← sanitizeItem_ok_iff]
  refine forall₂_congr fun p _ => ⟨?_, ?_⟩
  · rintro ⟨q, -, hq⟩
    exact ⟨q.2, hq⟩
  · rintro ⟨r, hr⟩
    exact ⟨(p.1, r), rfl, hr⟩

theorem ok_bind_ok {α β : Type} {x : Except PyError α} {f : α → β} :
    (∃ b, (x >>= fun a => .ok (f a)) = .ok b) ↔ ∃ a, x = .ok a := by
  simp only [PyValue.bind_ok]
  exact ⟨fun ⟨_, a, ha, _⟩ => ⟨a, ha⟩, fun ⟨a, ha⟩ => ⟨_, a, ha, rfl⟩⟩

/-- The induction is on the size, as a dataclass and a model are sanitized as their dictionaries. -/
theorem resembles_of_weight (n : Nat) (hn : v.weight ≤ n) (h : sanitizeValue t v = .ok r) : Resembles v r := by
  induction n generalizing v r with
  | zero =>
      have := v.weight_pos
      omega
  | succ n ih =>
      have helements : ∀ {vs rs : List PyValue}, 1 + PyValue.allWeight vs ≤ n + 1 →
          sanitizeValues t vs = .ok rs → PyValue.allHashable rs = allStayHashable vs := fun hn hrs => by
        refine allHashable_of_resembles (resembles_of_values hrs fun v hv r hr => ih ?_ hr)
        have := PyValue.weight_of_mem hv
        omega
      cases v with
      | str s =>
          rw [sanitizeValue_str] at h
          cases h
          exact ⟨operandOf_sanitizeText s, rfl⟩
      | none | bool _ | int _ | float _ _ | exception _ | generator =>
          rw [sanitizeValue.eq_def] at h
          cases h
          exact ⟨rfl, rfl⟩
      | dict items =>
          rw [sanitizeValue] at h
          obtain ⟨rs, -, h⟩ := PyValue.bind_ok.mp h
          cases h
          exact ⟨rfl, rfl⟩
      | list items =>
          rw [sanitizeValue] at h
          obtain ⟨rs, -, h⟩ := PyValue.bind_ok.mp h
          cases h
          exact ⟨rfl, rfl⟩
      | tuple items =>
          rw [sanitizeValue] at h
          obtain ⟨rs, hrs, h⟩ := PyValue.bind_ok.mp h
          cases h
          exact ⟨rfl, helements hn hrs⟩
      | namedTuple name fields defaults items =>
          rw [sanitizeValue, PyValue.construct] at h
          split at h
          · cases h
            refine ⟨rfl, ?_⟩
            simp [PyValue.hashable, PyValue.allHashable, staysHashable]
          · cases h
      | set items | frozenset items =>
          rw [sanitizeValue] at h
          obtain ⟨rs, -, h⟩ := PyValue.bind_ok.mp h
          obtain ⟨ds, -, h⟩ := PyValue.bind_ok.mp h
          cases h
          exact ⟨rfl, rfl⟩
      | dataclass object fields =>
          rw [sanitizeValue_dataclass] at h
          obtain ⟨d, hd, h⟩ := PyValue.bind_ok.mp h
          have := PyValue.weight_asdict_dataclass hd
          have hdict := ih (by omega) h
          obtain ⟨items, -, hitems⟩ := PyValue.bind_ok.mp hd
          cases hitems
          exact ⟨hdict.operand, hdict.hashable⟩
      | model object dump =>
          cases dump with
          | error e =>
              rw [sanitizeValue] at h
              cases h
          | ok dump =>
              rw [sanitizeValue] at h
              have hdump := ih (by simp only [PyValue.weight] at hn; omega) h
              exact ⟨hdump.operand, hdump.hashable⟩

theorem resembles_of_ok (h : sanitizeValue t v = .ok r) : Resembles v r := resembles_of_weight _ le_rfl h

theorem rebuildSet_ok_iff {vs : List PyValue} {f : List PyValue → PyValue} :
    (∃ r, (sanitizeValues t vs >>= fun rs => PyValue.distinct rs >>= fun ds => .ok (f ds)) = .ok r) ↔
      (∀ v ∈ vs, ∃ r, sanitizeValue t v = .ok r) ∧ allStayHashable vs = true := by
  rw [← sanitizeValues_ok_iff]
  have hhash : ∀ rs, sanitizeValues t vs = .ok rs → PyValue.allHashable rs = allStayHashable vs := fun rs hrs =>
    allHashable_of_resembles (resembles_of_values hrs fun v _ r hr => resembles_of_ok hr)
  constructor
  · rintro ⟨r, h⟩
    obtain ⟨rs, hrs, h⟩ := PyValue.bind_ok.mp h
    obtain ⟨ds, hds, -⟩ := PyValue.bind_ok.mp h
    refine ⟨⟨rs, hrs⟩, ?_⟩
    rw [← hhash rs hrs]
    unfold PyValue.distinct at hds
    split at hds
    · assumption
    · cases hds
  · rintro ⟨⟨rs, hrs⟩, hall⟩
    rw [← hhash rs hrs] at hall
    exact ⟨f rs, by simp [hrs, PyValue.distinct, hall, bind, Except.bind]⟩

/-- A value can be sanitized if and only if its containers can be rebuilt. The induction is on the size. -/
theorem sanitizes_of_weight (n : Nat) (hn : v.weight ≤ n) :
    (∃ r, sanitizeValue t v = .ok r) ↔ Rebuilds t v := by
  induction n generalizing v with
  | zero =>
      have := v.weight_pos
      omega
  | succ n ih =>
      have helements : ∀ {vs : List PyValue}, 1 + PyValue.allWeight vs ≤ n + 1 →
          ((∀ v ∈ vs, ∃ r, sanitizeValue t v = .ok r) ↔ ∀ v ∈ vs, Rebuilds t v) := fun hn => by
        refine forall₂_congr fun v hv => ih ?_
        have := PyValue.weight_of_mem hv
        omega
      cases v with
      | none | bool _ | int _ | float _ _ | str _ | exception _ | generator =>
          rw [sanitizeValue.eq_def]
          exact ⟨fun _ => by constructor, fun _ => ⟨_, rfl⟩⟩
      | dict items =>
          have hitems : (∀ p ∈ items, isSecretKey t (keyText t p.1) = false → ∃ r, sanitizeValue t p.2 = .ok r) ↔
              ∀ p ∈ items, isSecretKey t (keyText t p.1) = false → Rebuilds t p.2 := by
            refine forall₂_congr fun p hp => imp_congr_right fun _ => ih ?_
            have := PyValue.weight_of_mem_items hp
            simp only [PyValue.weight] at hn
            omega
          rw [sanitizeValue]
          refine ok_bind_ok.trans (sanitizeItems_ok_iff.trans (hitems.trans ⟨.dict, fun h => ?_⟩))
          cases h with
          | dict h => exact h
      | list items =>
          rw [sanitizeValue]
          refine ok_bind_ok.trans (sanitizeValues_ok_iff.trans ((helements hn).trans ⟨.list, fun h => ?_⟩))
          cases h with
          | list h => exact h
      | tuple items =>
          rw [sanitizeValue]
          refine ok_bind_ok.trans (sanitizeValues_ok_iff.trans ((helements hn).trans ⟨.tuple, fun h => ?_⟩))
          cases h with
          | tuple h => exact h
      | namedTuple name fields defaults items =>
          rw [sanitizeValue, PyValue.construct]
          constructor
          · rintro ⟨r, h⟩
            split at h
            · rename_i hcall
              exact .namedTuple (List.length_pos_iff.mp hcall.1) hcall.2
            · cases h
          · intro h
            cases h with
            | namedTuple hsome hmost => exact ⟨_, if_pos ⟨List.length_pos_iff.mpr hsome, hmost⟩⟩
      | set items =>
          rw [sanitizeValue]
          refine rebuildSet_ok_iff.trans ((and_congr_left' (helements hn)).trans ⟨fun h => .set h.1 h.2, fun h => ?_⟩)
          cases h with
          | set h hhash => exact ⟨h, hhash⟩
      | frozenset items =>
          rw [sanitizeValue]
          refine rebuildSet_ok_iff.trans
            ((and_congr_left' (helements hn)).trans ⟨fun h => .frozenset h.1 h.2, fun h => ?_⟩)
          cases h with
          | frozenset h hhash => exact ⟨h, hhash⟩
      | dataclass object fields =>
          rw [sanitizeValue_dataclass]
          constructor
          · rintro ⟨r, h⟩
            obtain ⟨d, hd, h⟩ := PyValue.bind_ok.mp h
            have := PyValue.weight_asdict_dataclass hd
            exact .dataclass hd ((ih (by omega)).mp ⟨r, h⟩)
          · intro h
            cases h with
            | dataclass hd h =>
                have := PyValue.weight_asdict_dataclass hd
                rw [hd]
                exact (ih (by omega)).mpr h
      | model object dump =>
          cases dump with
          | error e =>
              rw [sanitizeValue]
              constructor
              · rintro ⟨r, h⟩
                cases h
              · intro h
                cases h
          | ok dump =>
              rw [sanitizeValue]
              refine (ih (by simp only [PyValue.weight] at hn; omega)).trans ⟨.model, fun h => ?_⟩
              cases h with
              | model h => exact h

theorem sanitizes_iff : (∃ r, sanitizeValue t v = .ok r) ↔ Rebuilds t v := sanitizes_of_weight _ le_rfl

end Rebuilding

end FleetManagement
