import FleetManagement.Privacy.Requests

/-!
# Registering and signing in

The address of a new account is the typed string after `EmailStr` and `normalize_email`; a login looks for the
typed string after `normalize_email` alone.
-/

namespace FleetManagement

/-- `POST /auth/register`, and the committed database after it. -/
def runRegister (P : Platform) (db : Database) (env : Nat → Choice Draw Error)
    (email password fullName : String) (phone : Option String) : Except Error User × Database :=
  let result := (register P email password fullName phone).eval dialect env ⟨db, [], 0⟩
  (result.1, result.2.store)

/-- `user_service.authenticate` on a database that answers. -/
def runAuthenticate (P : Platform) (db : Database) (draws : Nat → Draw) (email password : String) :
    Except Error (Option User) :=
  ((authenticate P email password).eval dialect (Tx.calmly draws) ⟨db, [], 0⟩).1

section SignIn
variable {P : Platform} {db db' : Database} {env : Nat → Choice Draw Error}
  {email password fullName : String} {phone : Option String} {user : User}

/-- What an accepted registration leaves. -/
structure Registered (P : Platform) (db db' : Database) (email password : String) (user : User) : Prop where
  address : ∃ address, P.validateEmail email = some address ∧ user.email = normalizeEmail P address
  hash : ∃ salt, user.hashedPassword = P.hash password salt
  active : user.isActive = true
  rows : db'.users.rows = db.users.rows ++ [user]
  fresh : ∀ row ∈ db.users.rows, row.email ≠ user.email

theorem registered_of_inserted {address salt : String} {t : DateTime}
    (haddress : P.validateEmail email = some address)
    (h : dialect.applyAll [.insertUser (newUser P address password fullName .user phone salt t)] db = .ok db')
    (huser : db'.users.find? db'.users.seq = some user) : Registered P db db' email password user := by
  have hrow := (find?_inserted h).symm.trans huser
  obtain ⟨hcheck, hseq, rfl⟩ := insertUser_ok.mp (dialect.applyAll_singleton_ok.mp h)
  obtain rfl := Option.some.inj hrow
  refine ⟨⟨address, haddress, rfl⟩, ⟨salt, rfl⟩, rfl, rfl, fun row hmem hsame => ?_⟩
  have hunique : unique db.users (·.email = normalizeEmail P address) = .ok () := by
    obtain ⟨-, -, hcheck⟩ := bind_eq_ok.mp hcheck
    obtain ⟨-, -, hcheck⟩ := bind_eq_ok.mp hcheck
    obtain ⟨-, -, hcheck⟩ := bind_eq_ok.mp hcheck
    obtain ⟨-, -, hcheck⟩ := bind_eq_ok.mp hcheck
    exact hcheck
  rw [unique_ok, List.filter_eq_nil_iff] at hunique
  exact hunique row hmem (decide_eq_true hsame)

/-- An accepted registration has inserted the account that it answers with. -/
theorem registered_of_run (h : runRegister P db env email password fullName phone = (.ok user, db')) :
    Registered P db db' email password user := by
  have hwp : Tx.Wp dialect (fun _ => True) (fun r s' _ => ∀ user, r = .ok user →
      Registered P db s' email password user) (register P email password fullName phone) db [] := by
    unfold register
    cases haddress : P.validateEmail email with
    | none => exact fun user h => by cases h
    | some address =>
        refine Tx.wp_bind (wp_validate (fun _ => wp_createUser ?_ ?_ ?_) fun e user h => by cases h)
        · intro row salt t s' hs' hrow user huser
          cases huser
          exact registered_of_inserted haddress hs' hrow
        · exact fun e salt t s' _ user h => by cases h
        · exact fun e user h => by cases h
  have hsound : ∀ user, (runRegister P db env email password fullName phone).1 = .ok user →
      Registered P db (runRegister P db env email password fullName phone).2 email password user :=
    Tx.wp_sound (fun _ => trivial) 0 hwp
  rw [h] at hsound
  exact hsound user rfl

theorem runAuthenticate_eq (draws : Nat → Draw) : runAuthenticate P db draws email password =
    match db.users.rows.filter fun u => u.email = normalizeEmail P email with
    | [] => .ok none
    | [user] => .ok (if !P.verify password user.hashedPassword || !user.isActive then none else some user)
    | _ => .error .multipleResultsFound := by
  unfold runAuthenticate authenticate getUserByEmail
  rw [Tx.bind_assoc, Tx.eval_select (show dialect.applyAll [] db = .ok db from rfl)]
  generalize db.users.rows.filter (fun u => u.email = normalizeEmail P email) = rows
  match rows with
  | [] => rfl
  | _ :: _ :: _ => rfl
  | [user] =>
      simp only [scalarOneOrNone, Tx.pure_eq, Tx.ret_bind]
      split <;> rfl

/-- The account is found under its own address, and no other is. -/
theorem Registered.authenticate_iff (hr : Registered P db db' email password user)
    (hverify : ∀ password salt, P.verify password (P.hash password salt) = true) (draws : Nat → Draw) :
    runAuthenticate P db' draws email password = .ok (some user) ↔ user.email = normalizeEmail P email := by
  rw [runAuthenticate_eq]
  constructor
  · intro h
    split at h
    · cases h
    · rename_i row hrows
      have hmem := List.mem_filter.mp (hrows ▸ List.mem_singleton_self row)
      split at h
      · cases h
      · cases h
        exact of_decide_eq_true hmem.2
    · cases h
  · intro h
    have hbefore : db.users.rows.filter (fun u => u.email = normalizeEmail P email) = [] :=
      List.filter_eq_nil_iff.mpr fun row hrow hsame => hr.fresh row hrow ((of_decide_eq_true hsame).trans h.symm)
    have hrows : db'.users.rows.filter (fun u => u.email = normalizeEmail P email) = [user] := by
      rw [hr.rows, List.filter_append, hbefore]
      simp [h]
    obtain ⟨salt, hhash⟩ := hr.hash
    simp only [hrows, hhash, hverify, hr.active]
    rfl

end SignIn

/-- After an accepted registration the same typed address and password sign in as the new account if and only
if `EmailStr` has not changed what `normalize_email` makes of the address. -/
theorem login_after_register_iff (P : Platform)
    (hverify : ∀ password salt, P.verify password (P.hash password salt) = true) (db db' : Database)
    (env : Nat → Choice Draw Error) (draws : Nat → Draw) (email password fullName : String)
    (phone : Option String) (user : User)
    (h : runRegister P db env email password fullName phone = (.ok user, db')) :
    runAuthenticate P db' draws email password = .ok (some user) ↔
      (P.validateEmail email).map (normalizeEmail P) = some (normalizeEmail P email) := by
  have hr := registered_of_run h
  obtain ⟨address, haddress, hemail⟩ := hr.address
  rw [hr.authenticate_iff hverify draws, haddress, hemail, Option.map_some, Option.some_inj]

/-- A platform whose `EmailStr` takes the address out of `Name <address>`. -/
def namedPlatform : Platform :=
  { plainPlatform with
    validateEmail := fun s => if s = "Ivan <ivan@example.com>" then some "ivan@example.com" else some s }

theorem namedPlatform_verifies (password salt : String) :
    namedPlatform.verify password (namedPlatform.hash password salt) = true := by
  refine List.isPrefixOf_iff_prefix.mpr ?_
  show (password ++ "$").toList <+: (password ++ "$" ++ salt).toList
  rw [String.toList_append (s := password ++ "$")]
  exact List.prefix_append ..

/-- The account that Petro registers. -/
def petro : User :=
  ⟨1, "petro@example.com", "correct-horse$", "Petro", .user, none, true, 0, none⟩

theorem petro_signs_in : runAuthenticate namedPlatform (.seeded [.insertUser petro])
    (fun _ => ⟨0, zeroUuid, "", ""⟩) "petro@example.com" "correct-horse" = .ok (some petro) ↔
      (namedPlatform.validateEmail "petro@example.com").map (normalizeEmail namedPlatform) =
        some (normalizeEmail namedPlatform "petro@example.com") :=
  login_after_register_iff namedPlatform namedPlatform_verifies .empty _ (fun _ => stepAt 0) _
    "petro@example.com" "correct-horse" "Petro" none petro (by rfl)

/-- Ivan registers with an address that `EmailStr` shortens. -/
def ivanRegisters : Except Error User × Database :=
  runRegister namedPlatform .empty (fun _ => stepAt 0) "Ivan <ivan@example.com>" "correct-horse" "Ivan" none

/-- The account exists, but the typed address does not find it. -/
theorem typed_address_not_found : ivanRegisters.1.toOption.map (·.email) = some "ivan@example.com" ∧
    runAuthenticate namedPlatform ivanRegisters.2 (fun _ => ⟨0, zeroUuid, "", ""⟩) "Ivan <ivan@example.com>"
      "correct-horse" = .ok none := ⟨by rfl, by rfl⟩

end FleetManagement
