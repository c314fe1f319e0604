import FleetManagement.Api.Rentals
import FleetManagement.Rentals.History
import Mathlib.Algebra.BigOperators.Group.List.Basic
import Mathlib.Algebra.Order.Field.Rat
import Mathlib.Tactic.NormNum
import Mathlib.Tactic.Ring

/-!
# The revenue ledger

Over every sequence of requests from the empty database the summary, the list of rentals and the answers
to the returns agree on what has been earned.
-/

namespace FleetManagement

/-! ## Exact costs -/

theorem round2_intCast (n : Int) : round2 n = n := by
  have hcents : (n : Rat) * 100 = ((n * 100 : Int) : Rat) := by push_cast; rfl
  unfold round2
  simp only [hcents, Rat.floor_intCast, sub_self]
  norm_num

/-- A cost is a whole number: the hours that are begun, but at least one, at five each. -/
theorem calculateCost_eq (startedAt endedAt : DateTime) : ∃ hours : Int,
    calculateCost startedAt endedAt = ((hours * 5 : Int) : Rat) := by
  refine ⟨max (((endedAt - startedAt : Int) : Rat) / 1000000 / 3600).ceil 1, ?_⟩
  unfold calculateCost ratePerHour minBillableHours
  refine Eq.trans (congrArg round2 ?_) (round2_intCast _)
  push_cast
  rfl

example : calculateCost 0 3600000001 = 10 := by decide +kernel

/-! ## What has been earned -/

/-- The price of a rental that is over, as every route computes it. -/
def Rental.price (r : Rental) : Rat := if r.status = .completed then completedRentalRevenue r else 0

theorem Rental.price_whole (r : Rental) : ∃ n : Int, r.price = n := by
  unfold Rental.price completedRentalRevenue
  split
  · cases r.endedAt with
    | none => exact ⟨0, rfl⟩
    | some t => exact ⟨_, (calculateCost_eq r.startedAt t).choose_spec⟩
  · exact ⟨0, rfl⟩

theorem sum_whole {l : List Rat} (h : ∀ x ∈ l, ∃ n : Int, x = n) : ∃ n : Int, l.sum = n := by
  induction l with
  | nil => exact ⟨0, rfl⟩
  | cons x l ih =>
      obtain ⟨n, rfl⟩ := h x List.mem_cons_self
      obtain ⟨m, hm⟩ := ih fun y hy => h y (List.mem_cons_of_mem _ hy)
      exact ⟨n + m, by rw [List.sum_cons, hm]; push_cast; rfl⟩

/-- The rounding of the summary changes nothing. -/
theorem totalRevenue_summarize (rentals : List Rental) :
    (summarize rentals).totalRevenue = (rentals.map Rental.price).sum := by
  have hfilter : ((rentals.filter fun r => r.status = .completed).map completedRentalRevenue).sum =
      (rentals.map Rental.price).sum := by
    induction rentals with
    | nil => rfl
    | cons r rentals ih =>
        by_cases hr : r.status = .completed
        · simp [Rental.price, hr, ih]
        · simp [Rental.price, hr, ih]
  obtain ⟨n, hn⟩ := sum_whole (l := rentals.map Rental.price) fun x hx => by
    obtain ⟨r, -, rfl⟩ := List.mem_map.mp hx
    exact r.price_whole
  unfold summarize
  simp only [hfilter, hn, round2_intCast]

theorem count_summarize (rentals : List Rental) : (summarize rentals).active +
    (summarize rentals).completed + (summarize rentals).cancelled = rentals.length := by
  unfold summarize
  simp only
  induction rentals with
  | nil => rfl
  | cons r rentals ih =>
      cases hr : r.status <;> simp [hr] <;> omega

/-! ## The answers of the two reading routes -/

section Reads
variable {db : Database} {draws : Nat → Draw}

theorem eval_rentalsSummary (n : Nat) : rentalsSummary.eval dialect (Tx.calmly draws) ⟨db, [], n⟩ =
    (.ok (summarize db.rentals.rows), ⟨db, [], n + 1⟩) := rfl

/-- A read of the rental with its cost, which is its price if the rental is over. -/
structure RentalRead.Shows (r : Rental) (read : RentalRead) : Prop where
  status : read.status = r.status
  price : r.status = .completed → r.endedAt.isSome = true → read.cost = some r.price

variable (db draws) in
theorem eval_rentalWithCost (r : Rental) (n : Nat) : ∃ read m,
    (rentalWithCost r).eval dialect (Tx.calmly draws) ⟨db, [], n⟩ = (.ok read, ⟨db, [], m⟩) ∧
    RentalRead.Shows r read := by
  unfold rentalWithCost
  split
  · rename_i hcancelled
    exact ⟨_, _, rfl, rfl, fun hc => by rw [hc] at hcancelled; cases hcancelled⟩
  · cases hend : r.endedAt with
    | none => exact ⟨_, n + 1, rfl, rfl, fun _ hsome => by rw [hend] at hsome; cases hsome⟩
    | some t =>
        refine ⟨_, _, rfl, rfl, fun hc _ => ?_⟩
        simp [RentalRead.modelValidate, Rental.price, completedRentalRevenue, hc, hend]

variable (db draws) in
theorem eval_rentalsWithCost (rentals : List Rental) (n : Nat) : ∃ reads m,
    (rentalsWithCost rentals).eval dialect (Tx.calmly draws) ⟨db, [], n⟩ = (.ok reads, ⟨db, [], m⟩) ∧
    List.Forall₂ RentalRead.Shows rentals reads := by
  induction rentals generalizing n with
  | nil => exact ⟨[], n, rfl, .nil⟩
  | cons r rentals ih =>
      obtain ⟨read, m, hread, hshows⟩ := eval_rentalWithCost db draws r n
      obtain ⟨reads, m', hreads, hall⟩ := ih m
      refine ⟨read :: reads, m', ?_, .cons hshows hall⟩
      unfold rentalsWithCost
      rw [Tx.eval_bind_ok hread, Tx.eval_bind_ok hreads]
      rfl

end Reads

/-- The sum of the costs that some reads show. -/
def costs (reads : List RentalRead) : Rat := (reads.filterMap RentalRead.cost).sum

theorem costs_append (l m : List RentalRead) : costs (l ++ m) = costs l + costs m := by
  simp [costs]

/-- The list shows the price of every rental that is over. -/
theorem costs_completed {rentals : List Rental} {reads : List RentalRead}
    (h : List.Forall₂ RentalRead.Shows rentals reads)
    (hended : ∀ r ∈ rentals, r.status = .completed → r.endedAt.isSome = true) :
    costs (reads.filter fun r => r.status = .completed) = (rentals.map Rental.price).sum := by
  induction h with
  | nil => rfl
  | @cons r read rentals reads hr _ ih =>
      have hrest := ih fun q hq => hended q (List.mem_cons_of_mem _ hq)
      by_cases hs : r.status = .completed
      · have hcost := hr.price hs (hended r List.mem_cons_self hs)
        simp only [List.filter_cons, hr.status, hs, decide_true, if_true, List.map_cons, List.sum_cons]
        rw [← hrest]
        simp [costs, hcost]
      · have hzero : r.price = 0 := if_neg hs
        simp only [List.filter_cons, hr.status, hs, decide_false, List.map_cons, List.sum_cons, hzero,
          zero_add]
        exact hrest

/-! ## One request after another -/

/-- The reads that a successful `POST /rentals/start` has answered. -/
def startResponses : FleetRequest → Except Error FleetRead → List RentalRead
  | .rental (.startRental ..), .ok (.rental read) => [read]
  | _, _ => []

/-- The reads that a successful `POST /rentals/{rental_id}/end` has answered. -/
def endResponses : FleetRequest → Except Error FleetRead → List RentalRead
  | .rental (.endRental ..), .ok (.rental read) => [read]
  | _, _ => []

/-- A request, and what the server draws while it serves it alone. -/
abbrev FleetAction := FleetRequest × (Nat → Draw)

def FleetAction.answer (db : Database) (a : FleetAction) : Except Error FleetRead :=
  (a.1.route.eval dialect (Tx.calmly a.2) ⟨db, [], 0⟩).1

/-- The database and the answers so far. -/
structure AccountBooks where
  db : Database
  started : List RentalRead
  returned : List RentalRead

def AccountBooks.empty : AccountBooks := ⟨Database.empty, [], []⟩

def AccountBooks.serve (b : AccountBooks) (a : FleetAction) : AccountBooks where
  db := (a.1.route.eval dialect (Tx.calmly a.2) ⟨b.db, [], 0⟩).2.store
  started := b.started ++ startResponses a.1 (a.answer b.db)
  returned := b.returned ++ endResponses a.1 (a.answer b.db)

/-- What serving a request alone does to the rentals, with the answer that goes with it. -/
inductive Booked (db : Database) : FleetRequest → Except Error FleetRead → Database → Prop where
  | other {r : FleetRequest} {answer : Except Error FleetRead} {db' : Database}
      (hstart : startResponses r answer = []) (hend : endResponses r answer = [])
      (h : db'.rentals = db.rentals) : Booked db r answer db'
  | started {renterId vehicleId stationId : Int} {t : DateTime} (hseq) :
      Booked db (.rental (.startRental renterId vehicleId))
        (.ok (.rental (.modelValidate
          (startedRental renterId vehicleId stationId t (db.rentals.seq + 1)) none)))
        (db.started hseq renterId vehicleId stationId t)
  | ended {rentalId stationId : Int} {rental : Rental} {t : DateTime}
      (hr : db.rentals.find? rentalId = some rental) (ha : rental.status = .active) :
      Booked db (.rental (.endRental rentalId stationId))
        (.ok (.rental (.modelValidate (rental.complete stationId t)
          (some (calculateCost rental.startedAt t)))))
        (db.ended rentalId rental.vehicleId stationId t)

section Serving
variable {db : Database} {draws : Nat → Draw} {n : Nat}

variable (db draws n) in
/-- Alone and with no step failing, `start_rental` raises and changes nothing, or answers with what it
has committed. -/
theorem eval_startRental (renterId vehicleId : Int) :
    (∃ e m, (startRental renterId vehicleId).eval dialect (Tx.calmly draws) ⟨db, [], n⟩ =
      (.error e, ⟨db, [], m⟩)) ∨
    ∃ hseq stationId t m, (startRental renterId vehicleId).eval dialect (Tx.calmly draws) ⟨db, [], n⟩ =
      (.ok (startedRental renterId vehicleId stationId t (db.rentals.seq + 1)),
        ⟨db.started hseq renterId vehicleId stationId t, [], m⟩) := by
  unfold startRental
  rcases eval_get_cases db draws n Database.vehicles vehicleId with hget | hget
  · exact Or.inl ⟨_, _, Tx.eval_bind_error hget⟩
  · rw [Tx.eval_bind_ok hget]
    cases hv : db.vehicles.find? vehicleId with
    | none => exact Or.inl ⟨_, _, rfl⟩
    | some vehicle =>
        simp only
        split
        · exact Or.inl ⟨_, _, rfl⟩
        · rename_i havail
          have hnow : now.eval dialect (Tx.calmly draws) ⟨db, [], n + 1⟩ =
              (.ok (draws (n + 1)).now, ⟨db, [], n + 2⟩) := rfl
          rw [Tx.eval_bind_ok hnow]
          cases happ : dialect.applyAll (startFlush renterId vehicleId vehicle (draws (n + 1)).now) db with
          | error e => exact Or.inl ⟨_, _, Tx.eval_commitAll_error happ⟩
          | ok db' =>
              obtain ⟨-, -, hseq, rfl⟩ := startFlush_ok (Table.key_of_find? hv) (not_not.mp havail) happ
              refine Or.inr ⟨hseq, vehicle.stationId, (draws (n + 1)).now, n + 4, ?_⟩
              rw [Tx.eval_commitAll happ]
              refine eval_refresh ?_
              rw [Database.started_rentals, Table.find?_insert, if_pos (by simp)]

variable (db draws n) in
theorem eval_hasFreeSlot_cases (stationId : Int) : ∃ x m,
    (hasFreeSlot stationId).eval dialect (Tx.calmly draws) ⟨db, [], n⟩ = (x, ⟨db, [], m⟩) := by
  unfold hasFreeSlot getStation
  rw [Tx.bind_assoc]
  rcases eval_get_cases db draws n Database.stations stationId with hget | hget
  · exact ⟨_, _, Tx.eval_bind_error hget⟩
  · rw [Tx.eval_bind_ok hget]
    cases db.stations.find? stationId with
    | none => exact ⟨_, _, rfl⟩
    | some station => exact ⟨_, _, rfl⟩

variable (db draws n) in
theorem eval_endRental (rentalId stationId : Int) :
    (∃ e m, (endRental rentalId stationId).eval dialect (Tx.calmly draws) ⟨db, [], n⟩ =
      (.error e, ⟨db, [], m⟩)) ∨
    ∃ rental t m, db.rentals.find? rentalId = some rental ∧ rental.status = .active ∧
      (endRental rentalId stationId).eval dialect (Tx.calmly draws) ⟨db, [], n⟩ =
        (.ok (rental.complete stationId t), ⟨db.ended rentalId rental.vehicleId stationId t, [], m⟩) := by
  unfold endRental
  rcases eval_get_cases db draws n Database.rentals rentalId with hget | hget
  · exact Or.inl ⟨_, _, Tx.eval_bind_error hget⟩
  rw [Tx.eval_bind_ok hget]
  cases hr : db.rentals.find? rentalId with
  | none => exact Or.inl ⟨_, _, rfl⟩
  | some rental =>
      obtain rfl : rental.id = rentalId := Table.key_of_find? hr
      simp only
      split
      · exact Or.inl ⟨_, _, rfl⟩
      · rename_i hactive
        obtain ⟨x, m, hslot⟩ := eval_hasFreeSlot_cases db draws (n + 1) stationId
        cases x with
        | error e => exact Or.inl ⟨_, _, Tx.eval_bind_error hslot⟩
        | ok free =>
            rw [Tx.eval_bind_ok hslot]
            cases free with
            | false => exact Or.inl ⟨_, _, rfl⟩
            | true =>
                simp only [if_true]
                rcases eval_get_cases db draws m Database.vehicles rental.vehicleId with hveh | hveh
                · exact Or.inl ⟨_, _, Tx.eval_bind_error hveh⟩
                rw [Tx.eval_bind_ok hveh]
                cases hv : db.vehicles.find? rental.vehicleId with
                | none => exact Or.inl ⟨_, _, rfl⟩
                | some vehicle =>
                    have hvid : vehicle.id = rental.vehicleId := Table.key_of_find? hv
                    have hnow : now.eval dialect (Tx.calmly draws) ⟨db, [], m + 1⟩ =
                        (.ok (draws (m + 1)).now, ⟨db, [], m + 2⟩) := rfl
                    simp only
                    rw [Tx.eval_bind_ok hnow]
                    cases happ : dialect.applyAll
                        (endFlush rental vehicle stationId (draws (m + 1)).now) db with
                    | error e => exact Or.inl ⟨_, _, Tx.eval_commitAll_error happ⟩
                    | ok db' =>
                        obtain rfl := endFlush_ok_of_current hr (hvid ▸ hv) happ
                        refine Or.inr ⟨rental, (draws (m + 1)).now, m + 4, rfl, not_not.mp hactive, ?_⟩
                        rw [Tx.eval_commitAll happ, hvid]
                        refine eval_refresh ?_
                        rw [Database.ended_rentals, Table.find?_update_self hr]

/-- What reads the answer of a route does nothing else. -/
theorem eval_read (r : FleetRequest) (response : FleetResponse) (c : Session Database Stmt) :
    ((r.read response).eval dialect (Tx.calmly draws) c).2 = c := by
  cases response with
  | station row => rfl
  | vehicle row => rfl
  | renter row => rfl
  | rental row =>
      cases r with
      | rental request =>
          cases request with
          | startRental renterId vehicleId => rfl
          | endRental rentalId stationId =>
              have hread : ∃ x, (endedRead row).eval dialect (Tx.calmly draws) c = (x, c) := by
                unfold endedRead
                cases row.endedAt <;> exact ⟨_, rfl⟩
              obtain ⟨x, hx⟩ := hread
              show ((endedRead row >>= fun read => Tx.ret (FleetRead.rental read)).eval dialect _ c).2 = c
              cases x with
              | ok read => rw [Tx.eval_bind_ok hx]; rfl
              | error e => rw [Tx.eval_bind_error hx]
      | _ => rfl

theorem eval_route_store (r : FleetRequest) :
    (r.route.eval dialect (Tx.calmly draws) ⟨db, [], 0⟩).2.store =
      (r.handler.eval dialect (Tx.calmly draws) ⟨db, [], 0⟩).2.store := by
  unfold FleetRequest.route
  generalize hh : r.handler.eval dialect (Tx.calmly draws) ⟨db, [], 0⟩ = x
  obtain ⟨answer, c⟩ := x
  cases answer with
  | ok response => rw [Tx.eval_bind_ok hh, eval_read]
  | error e => rw [Tx.eval_bind_error hh]

theorem booked_of_create {r : FleetRequest} (hr : ∀ request, r ≠ .rental request) :
    Booked db r (FleetAction.answer db (r, draws))
      (r.route.eval dialect (Tx.calmly draws) ⟨db, [], 0⟩).2.store := by
  have hserved := serve_served ⟨db, []⟩ (r, Tx.calmly draws)
  have hstore : (serve ⟨db, []⟩ (r, Tx.calmly draws)).db =
      (r.route.eval dialect (Tx.calmly draws) ⟨db, [], 0⟩).2.store := (eval_route_store r).symm
  rw [← hstore]
  generalize FleetAction.answer db (r, draws) = answer
  generalize serve ⟨db, []⟩ (r, Tx.calmly draws) = h' at hserved
  have hnil : startResponses r answer = [] ∧ endResponses r answer = [] := by
    cases r with
    | rental request => exact absurd rfl (hr request)
    | _ => exact ⟨rfl, rfl⟩
  refine .other hnil.1 hnil.2 ?_
  cases hserved with
  | startRental => exact absurd rfl (hr _)
  | endRental => exact absurd rfl (hr _)
  | _ => rfl

variable (db) in
/-- Every request that is served alone is booked. -/
theorem booked_serve (a : FleetAction) : Booked db a.1 (a.answer db)
    (a.1.route.eval dialect (Tx.calmly a.2) ⟨db, [], 0⟩).2.store := by
  obtain ⟨r, draws⟩ := a
  cases r with
  | createStation address capacity => exact booked_of_create nofun
  | createVehicle licensePlate model stationId => exact booked_of_create nofun
  | createRenter fullName licenseNumber => exact booked_of_create nofun
  | rental request =>
      unfold FleetAction.answer FleetRequest.route FleetRequest.handler RentalRequest.handler
      simp only [Tx.bind_assoc]
      cases request with
      | startRental renterId vehicleId =>
          simp only
          rcases eval_startRental db draws 0 renterId vehicleId with
            ⟨e, m, he⟩ | ⟨hseq, stationId, t, m, hok⟩
          · rw [Tx.eval_bind_error he]
            exact .other rfl rfl rfl
          · rw [Tx.eval_bind_ok hok]
            exact .started hseq
      | endRental rentalId stationId =>
          simp only
          rcases eval_endRental db draws 0 rentalId stationId with
            ⟨e, m, he⟩ | ⟨rental, t, m, hr, ha, hok⟩
          · rw [Tx.eval_bind_error he]
            exact .other rfl rfl rfl
          · rw [Tx.eval_bind_ok hok]
            exact .ended hr ha

end Serving

/-! ## The books balance -/

/-- The invariant: a rental that is over has an end, and what is priced and counted is what was
answered. -/
structure BooksInv (b : AccountBooks) : Prop where
  ended : ∀ r ∈ b.db.rentals.rows, r.status = .completed → r.endedAt.isSome = true
  revenue : (b.db.rentals.rows.map Rental.price).sum = costs b.returned
  started : b.db.rentals.rows.length = b.started.length

/-- What a request adds to the revenue and to the number of rentals. -/
theorem Booked.effect {db db' : Database} {r : FleetRequest} {answer : Except Error FleetRead}
    (h : Booked db r answer db')
    (hended : ∀ r ∈ db.rentals.rows, r.status = .completed → r.endedAt.isSome = true) :
    (∀ r ∈ db'.rentals.rows, r.status = .completed → r.endedAt.isSome = true) ∧
    (db'.rentals.rows.map Rental.price).sum =
      (db.rentals.rows.map Rental.price).sum + costs (endResponses r answer) ∧
    db'.rentals.rows.length = db.rentals.rows.length + (startResponses r answer).length := by
  cases h with
  | other hstart hend h =>
      rw [hstart, hend, h]
      exact ⟨hended, (add_zero _).symm, rfl⟩
  | @started renterId vehicleId stationId t hseq =>
      refine ⟨?_, ?_, ?_⟩
      · rw [Database.started_rentals, Table.rows_insert]
        intro r hr hc
        rcases List.mem_append.mp hr with hr | hr
        · exact hended r hr hc
        · rw [List.mem_singleton.mp hr] at hc; cases hc
      · rw [Database.started_rentals, Table.rows_insert, List.map_append, List.sum_append]
        simp [endResponses, costs, Rental.price, startedRental]
      · rw [Database.started_rentals, Table.rows_insert, List.length_append]
        rfl
  | @ended rentalId stationId rental t hr ha =>
      obtain ⟨l₁, l₂, hl, hne⟩ := Table.split_of_find? hr
      have hrows := @Table.update_rows _ _ _ _ _ _ _ _ (Rental.key_complete stationId t) hl
        (Table.key_of_find? hr) hne
      have hbefore : rental.price = 0 := if_neg (by rw [ha]; decide)
      have hafter : (rental.complete stationId t).price = calculateCost rental.startedAt t := rfl
      refine ⟨?_, ?_, ?_⟩
      · rw [Database.ended_rentals]
        exact Table.forall_mem_update _ (fun q hq _ => hended q hq) fun _ _ _ => rfl
      · rw [Database.ended_rentals, hrows, hl]
        have hcosts : costs [.modelValidate (rental.complete stationId t)
            (some (calculateCost rental.startedAt t))] = calculateCost rental.startedAt t := by
          simp [costs, RentalRead.modelValidate]
        simp only [List.map_append, List.map_cons, List.sum_append, List.sum_cons, hbefore, hafter,
          endResponses, hcosts]
        ring
      · rw [Database.ended_rentals, hrows, hl]
        simp [startResponses]

theorem BooksInv.serve {b : AccountBooks} (h : BooksInv b) (a : FleetAction) : BooksInv (b.serve a) := by
  obtain ⟨hended, hrevenue, hstarted⟩ := (booked_serve b.db a).effect h.ended
  refine ⟨hended, ?_, ?_⟩
  · exact hrevenue.trans (by rw [h.revenue]; exact (costs_append _ _).symm)
  · exact hstarted.trans (by rw [h.started]; exact List.length_append.symm)

/-- The summary and the list of rentals agree with the answers to the returns and to the starts. -/
def AccountBooks.Balanced (b : AccountBooks) : Prop :=
  ∀ draws n, ∃ summary listed m,
    rentalsSummary.eval dialect (Tx.calmly draws) ⟨b.db, [], n⟩ = (.ok summary, ⟨b.db, [], n + 1⟩) ∧
    listRentals.eval dialect (Tx.calmly draws) ⟨b.db, [], n⟩ = (.ok listed, ⟨b.db, [], m⟩) ∧
    summary.totalRevenue = costs b.returned ∧
    summary.totalRevenue = costs (listed.filter fun r => r.status = .completed) ∧
    summary.active + summary.completed + summary.cancelled = b.started.length

theorem BooksInv.balanced {b : AccountBooks} (h : BooksInv b) : b.Balanced := by
  intro draws n
  have hperm : (newestFirst b.db.rentals.rows).Perm b.db.rentals.rows := List.perm_insertionSort _ _
  obtain ⟨listed, m, hlist, hshows⟩ :=
    eval_rentalsWithCost b.db draws (newestFirst b.db.rentals.rows) (n + 1)
  refine ⟨_, listed, m, eval_rentalsSummary n, ?_, ?_, ?_, ?_⟩
  · unfold listRentals
    rw [Tx.eval_select rfl, hlist]
  · rw [totalRevenue_summarize, h.revenue]
  · rw [totalRevenue_summarize, costs_completed hshows fun r hr => h.ended r (hperm.mem_iff.mp hr)]
    exact ((hperm.map Rental.price).sum_eq).symm
  · rw [count_summarize, h.started]

/-- The total revenue that `GET /rentals/summary` shows. -/
def Database.totalRevenue (db : Database) : Rat := (summarize db.rentals.rows).totalRevenue

theorem booksInv_of_visits {actions : List FleetAction} {b : AccountBooks}
    (hb : Runs.Visits AccountBooks.serve .empty actions b) : BooksInv b :=
  Runs.invariant_of_step (fun _ a h => h.serve a) ⟨fun _ hr => (by cases hr), rfl, rfl⟩ b hb

/-- Over every sequence of requests the revenue ledger balances, and it changes with a successful return
only, by the cost that the return answers. -/
theorem revenue_ledger_balances (actions : List FleetAction) :
    (∀ b, Runs.Visits AccountBooks.serve .empty actions b → b.Balanced) ∧
    ∀ b a, Runs.Takes AccountBooks.serve .empty actions b a →
      (endResponses a.1 (a.answer b.db) = [] → (b.serve a).db.totalRevenue = b.db.totalRevenue) ∧
      ∀ read, endResponses a.1 (a.answer b.db) = [read] → ∃ cost, read.cost = some cost ∧
        (b.serve a).db.totalRevenue = b.db.totalRevenue + cost := by
  refine ⟨fun b hb => (booksInv_of_visits hb).balanced, fun b a ha => ?_⟩
  have hbooked := booked_serve b.db a
  obtain ⟨-, hrevenue, -⟩ := hbooked.effect (booksInv_of_visits ha.visits).ended
  have htotal : (b.serve a).db.totalRevenue = b.db.totalRevenue +
      costs (endResponses a.1 (a.answer b.db)) := by
    unfold Database.totalRevenue
    rw [totalRevenue_summarize, totalRevenue_summarize]
    exact hrevenue
  refine ⟨fun hnil => by rw [htotal, hnil]; exact add_zero _, fun read hread => ?_⟩
  have hcost : ∃ cost, read.cost = some cost := by
    generalize a.answer b.db = answer at hbooked hread
    generalize (a.1.route.eval dialect (Tx.calmly a.2) ⟨b.db, [], 0⟩).2.store = db' at hbooked
    generalize a.1 = r at hbooked hread
    cases hbooked with
    | other hstart hend h => rw [hend] at hread; cases hread
    | started hseq => cases hread
    | ended hr ha => cases hread; exact ⟨_, rfl⟩
  obtain ⟨cost, hcost⟩ := hcost
  refine ⟨cost, hcost, ?_⟩
  rw [htotal, hread]
  simp [costs, hcost]

def servedAt (t : DateTime) (r : FleetRequest) : FleetAction := (r, fun _ => ⟨t, zeroUuid, "", ""⟩)

/-- A return after an hour and a bit, a second one that is refused, and one on a clock that was set back. -/
def rentalDay : List FleetAction :=
  [servedAt 0 (.createStation "Kyiv, Central Station" 2),
    servedAt 0 (.createVehicle "AA1234BB" "Skoda Fabia" 1),
    servedAt 0 (.createRenter "Ira Bondar" "BX-1"),
    servedAt 0 (.rental (.startRental 1 1)),
    servedAt 3600000001 (.rental (.endRental 1 1)),
    servedAt 3600000002 (.rental (.endRental 1 1)),
    servedAt 7200000000 (.rental (.startRental 1 1)),
    servedAt 60 (.rental (.endRental 2 1))]

theorem rentalDay_balances : (Runs.run AccountBooks.serve .empty rentalDay).Balanced ∧
    (Runs.run AccountBooks.serve .empty rentalDay).db.totalRevenue = 15 :=
  ⟨(revenue_ledger_balances rentalDay).1 _ (Runs.Visits.last _ _), by decide +kernel⟩

end FleetManagement
