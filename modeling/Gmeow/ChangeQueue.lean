import Gmeow.World

/-!
# Batches of change messages

The broker hands the change messages of its projection queue to the scheduler in batches: it
reads what has been delivered, decodes all of it, has all of it processed and settles all of it,
in this order. A message is settled by an ack, or by a nack that puts it back into the queue or
does not.

* `Consumer` — what a stream of deliveries offers, over any requests;
* `objectChangeDeliveries`, `settleObjectChanges`, `processObjectChanges` — the reading loop of
  `Broker.ProcessObjectChanges`, what it does with a batch, and both;
* `handleChanges` — a broker that keeps the fate of every delivery;
* `decodable_settled_iff` — every message that was read and can be decoded is processed and acked,
  or put back, if and only if none of the batch can be, or all can and neither the reading nor a
  settlement fails.
-/

namespace Gmeow

open Prog

/-! ## Reading, decoding and settling -/

/-- `contracts.ObjectChangeRequest`, as far as it is looked at. -/
structure ObjectChangeRequest (D : Type) : Type where
  objectDigests : List D

/-- What a stream of deliveries offers. -/
structure Consumer (P : Type) (R : P → Type) (δ : Type) : Type where
  /-- `receiveDelivery` after what was read so far: it waits for the first delivery only -/
  receive : List δ → Prog P R (Except String (Option δ))
  ack : δ → Prog P R (Except String Unit)
  /-- back into the queue, or not -/
  nack : δ → Bool → Prog P R (Except String Unit)

/-- `errors.Join` of two errors. -/
def joinErrors : Option String → Option String → Option String
  | none, e => e
  | some e, none => some e
  | some e, some e' => some (e ++ "\n" ++ e')

section Batch

variable {P : Type} {R : P → Type} {δ ρ : Type} (consumer : Consumer P R δ)

/-- The loop of `objectChangeDeliveries`: what has been read and, if it fails, the error. The first
number is how many more deliveries may be read. -/
def objectChangeDeliveries : Nat → List δ → Prog P R (List δ × Option String)
  | 0, read => return (read, none)
  | left + 1, read => do
    match ← consumer.receive read with
    | .error e => return (read, some ("receive object change delivery: " ++ e))
    | .ok none => return (read, none)
    | .ok (some delivery) => objectChangeDeliveries left (read ++ [delivery])

/-- `objectChangeRequests`. -/
def objectChangeRequests (decode : δ → Except String ρ) : List δ → Except String (List ρ)
  | [] => .ok []
  | delivery :: rest =>
    match decode delivery with
    | .error e => .error e
    | .ok request => (objectChangeRequests decode rest).map (request :: ·)

/-- `ackDeliveries`: those acked, until one fails. -/
def ackDeliveries : List δ → Nat → Prog P R (Nat × Option String)
  | [], processed => return (processed, none)
  | delivery :: rest, processed => do
    match ← consumer.ack delivery with
    | .error e => return (processed, some ("ack object change delivery: " ++ e))
    | .ok () => ackDeliveries rest (processed + 1)

/-- `nackDeliveries`: all of them, whether one fails or not. -/
def nackDeliveries (requeue : Bool) : List δ → Option String → Prog P R (Option String)
  | [], joined => return joined
  | delivery :: rest, joined => do
    match ← consumer.nack delivery requeue with
    | .error e =>
      let joined := joinErrors joined (some ("nack object change delivery: " ++ e))
      nackDeliveries requeue rest joined
    | .ok () => nackDeliveries requeue rest joined

/-- What `ProcessObjectChanges` does with the deliveries it has read: the number processed, and
the error. -/
def settleObjectChanges (decode : δ → Except String ρ)
    (process : List ρ → Prog P R (Except String Unit)) (deliveries : List δ) :
    Prog P R (Nat × Option String) := do
  if deliveries.isEmpty then return (0, none)
  else
    match objectChangeRequests decode deliveries with
    | .error e =>
      -- one message that cannot be decoded has all of the batch thrown away
      let nacked ← nackDeliveries consumer false deliveries none
      return (0, joinErrors (some e) nacked)
    | .ok requests =>
      match ← process requests with
      | .error e =>
        match ← nackDeliveries consumer true deliveries none with
        | some e' => return (0, joinErrors (some e) (some e'))
        | none => return (0, some ("process object changes: " ++ e))
      | .ok () => ackDeliveries consumer deliveries 0

/-- The limit of a batch, or the default of `ProcessObjectChanges`. -/
def batchLimit (limit : Int) : Nat := if limit ≤ 0 then 100 else limit.toNat

/-- `ProcessObjectChanges`. A batch whose reading fails is left alone: what was read of it is
counted as processed, and neither acked nor nacked. -/
def processObjectChanges (decode : δ → Except String ρ)
    (process : List ρ → Prog P R (Except String Unit)) (limit : Int) :
    Prog P R (Nat × Option String) := do
  match ← objectChangeDeliveries consumer (batchLimit limit) [] with
  | (deliveries, some e) =>
    return (deliveries.length, some ("read object change deliveries: " ++ e))
  | (deliveries, none) => settleObjectChanges consumer decode process deliveries

end Batch

/-- `projectionRefreshDigest`. -/
def projectionRefreshDigest (unmarshalDigest : Bytes → Except String String) (body : Bytes) :
    Except String String :=
  match unmarshalDigest body with
  | .error e => .error e
  | .ok text =>
    if trimSpace text = "" then .error "projection refresh digest is required"
    else .ok (trimSpace text)

/-- `objectChangeRequest`; the JSON of the body is decoded outside. -/
def objectChangeRequest (unmarshal : Bytes → Except String (ObjectChangeRequest String))
    (unmarshalDigest : Bytes → Except String String) (body : Bytes) :
    Except String (ObjectChangeRequest String) :=
  match unmarshal body with
  | .error e => .error ("decode object change request: " ++ e)
  | .ok request =>
    if request.objectDigests.length > 0 then .ok request
    else
      (projectionRefreshDigest unmarshalDigest body).map fun digest => { objectDigests := [digest] }

/-! ## A broker that keeps the fate of its deliveries -/

/-- `amqp.Delivery`, as far as it is looked at. -/
structure Delivery : Type where
  tag : Nat
  body : Bytes
  deriving DecidableEq

/-- The requests of the broker. -/
inductive ChangePrim : Type where
  | receive : Bool → ChangePrim
  | process : List (ObjectChangeRequest String) → ChangePrim
  | ack : Delivery → ChangePrim
  | nack : Delivery → Bool → ChangePrim

/-- Their answers. -/
@[reducible] def ChangeResp : ChangePrim → Type
  | .receive _ => Except String (Option Delivery)
  | _ => Except String Unit

/-- What was delivered, what will happen, and what became of the deliveries. -/
structure ChangeWorld : Type where
  /-- the deliveries to come; a read that does not wait may find none -/
  arrivals : Nat → Except String (Option Delivery) := fun _ => .ok none
  /-- the error of the process function -/
  outcome : Option String := none
  /-- the errors of the settlements to come -/
  settleFaults : Nat → Option String := fun _ => none
  /-- the requests that were passed to the process function -/
  passed : List (ObjectChangeRequest String) := []
  acked : List Nat := []
  requeued : List Nat := []
  rejected : List Nat := []

/-- The error of the next settlement. -/
def ChangeWorld.settle (w : ChangeWorld) : ChangeWorld :=
  { w with settleFaults := fun n => w.settleFaults (n + 1) }

/-- One request of the broker. -/
def handleChanges : Handler ChangePrim ChangeResp ChangeWorld
  | .receive wait, w =>
    match wait, w.arrivals 0 with
    | true, .ok none => none
    | _, arrived => some (arrived, { w with arrivals := fun n => w.arrivals (n + 1) })
  | .process requests, w =>
    some (w.outcome.elim (.ok ()) .error, { w with passed := w.passed ++ requests })
  | .ack delivery, w =>
    match w.settleFaults 0 with
    | some e => some (.error e, w.settle)
    | none => some (.ok (), { w.settle with acked := w.acked ++ [delivery.tag] })
  | .nack delivery requeue, w =>
    match w.settleFaults 0 with
    | some e => some (.error e, w.settle)
    | none =>
      some (.ok (), if requeue then { w.settle with requeued := w.requeued ++ [delivery.tag] }
        else { w.settle with rejected := w.rejected ++ [delivery.tag] })

/-- The stream of this broker. -/
def changeConsumer : Consumer ChangePrim ChangeResp Delivery where
  receive read := Prog.ask (ChangePrim.receive read.isEmpty)
  ack delivery := Prog.ask (ChangePrim.ack delivery)
  nack delivery requeue := Prog.ask (ChangePrim.nack delivery requeue)

section Fates

/-- What a loop reads of the deliveries to come, and the error that ends it. -/
def readOf : (Nat → Except String (Option Delivery)) → Nat → List Delivery × Option String
  | _, 0 => ([], none)
  | arrivals, left + 1 =>
    match arrivals 0 with
    | .error e => ([], some ("receive object change delivery: " ++ e))
    | .ok none => ([], none)
    | .ok (some delivery) =>
      ((readOf (fun n => arrivals (n + 1)) left).map (delivery :: ·) id)

/-- **The reading loop** hands over what arrived in front of the first gap or error. The first read
waits, so that there is no gap in front. -/
theorem objectChangeDeliveries_reads :
    ∀ (left : Nat) (read : List Delivery) (w : ChangeWorld),
      (read = [] → left = 0 ∨ w.arrivals 0 ≠ .ok none) →
      (objectChangeDeliveries changeConsumer left read).wp handleChanges w fun r w' =>
        r = .ok (read ++ (readOf w.arrivals left).1, (readOf w.arrivals left).2) ∧
          w' = { w with arrivals := w'.arrivals } := by
  intro left
  induction left with
  | zero =>
    intro read w _
    exact ⟨by rw [readOf, List.append_nil], rfl⟩
  | succ left ih =>
    intro read w hwaits
    rw [objectChangeDeliveries, readOf]
    have hstep : handleChanges (.receive read.isEmpty) w =
        some (w.arrivals 0, { w with arrivals := fun n => w.arrivals (n + 1) }) := by
      cases read with
      | cons first rest => rfl
      | nil =>
        have hfirst := (hwaits rfl).resolve_left nofun
        cases harrival : w.arrivals 0 with
        | error e => simp [handleChanges, harrival]
        | ok arrived =>
          cases arrived with
          | none => exact absurd harrival hfirst
          | some delivery => simp [handleChanges, harrival]
    refine wp_ask_bind hstep ?_
    cases harrival : w.arrivals 0 with
    | error e => exact ⟨by rw [List.append_nil], rfl⟩
    | ok arrived =>
      cases arrived with
      | none => exact ⟨by rw [List.append_nil], rfl⟩
      | some delivery =>
        refine wp_mono (ih (read ++ [delivery]) _ fun hnil => ?_) fun r w' ⟨hr, hw'⟩ => ⟨?_, ?_⟩
        · exact absurd hnil (List.append_ne_nil_of_right_ne_nil _ (List.cons_ne_nil _ _))
        · rw [hr, List.append_assoc]
          rfl
        · rw [hw']

/-- The deliveries that are acked: those before the first failure. -/
def ackedOf : (Nat → Option String) → List Delivery → List Nat
  | _, [] => []
  | faults, delivery :: rest =>
    if faults 0 = none then delivery.tag :: ackedOf (fun n => faults (n + 1)) rest else []

/-- The deliveries that are nacked: those whose own settlement does not fail. -/
def nackedOf : (Nat → Option String) → List Delivery → List Nat
  | _, [] => []
  | faults, delivery :: rest =>
    (if faults 0 = none then [delivery.tag] else []) ++ nackedOf (fun n => faults (n + 1)) rest

/-- The loop ends at the first ack that fails: those before it are acked. -/
theorem ackDeliveries_acks : ∀ (deliveries : List Delivery) (processed : Nat) (w : ChangeWorld),
    (ackDeliveries changeConsumer deliveries processed).wp handleChanges w fun r w' =>
      (∃ out, r = .ok out) ∧ w'.acked = w.acked ++ ackedOf w.settleFaults deliveries ∧
        w'.requeued = w.requeued ∧ w'.rejected = w.rejected ∧ w'.passed = w.passed := by
  intro deliveries
  induction deliveries with
  | nil =>
    intro processed w
    exact ⟨⟨_, rfl⟩, (List.append_nil _).symm, rfl, rfl, rfl⟩
  | cons delivery rest ih =>
    intro processed w
    rw [ackDeliveries, ackedOf]
    cases hfault : w.settleFaults 0 with
    | some e =>
      have hstep : handleChanges (.ack delivery) w = some (.error e, w.settle) := by
        simp [handleChanges, hfault]
      refine wp_ask_bind hstep ?_
      exact ⟨⟨_, rfl⟩, (List.append_nil _).symm, rfl, rfl, rfl⟩
    | none =>
      have hstep : handleChanges (.ack delivery) w =
          some (.ok (), { w.settle with acked := w.acked ++ [delivery.tag] }) := by
        simp [handleChanges, hfault]
      refine wp_ask_bind hstep ?_
      refine wp_mono (ih (processed + 1) _) fun r w' ⟨hok, hacked, hrest⟩ => ?_
      refine ⟨hok, ?_, hrest⟩
      rw [hacked, List.append_assoc]
      rfl

/-- The loop goes on behind a nack that fails: exactly those whose settlement does not fail are put
back, or rejected. -/
theorem nackDeliveries_nacks (requeue : Bool) :
    ∀ (deliveries : List Delivery) (joined : Option String) (w : ChangeWorld),
      (nackDeliveries changeConsumer requeue deliveries joined).wp handleChanges w fun r w' =>
        (∃ out, r = .ok out) ∧ w'.acked = w.acked ∧ w'.passed = w.passed ∧
          w'.requeued = w.requeued ++ (if requeue then nackedOf w.settleFaults deliveries else []) ∧
          w'.rejected = w.rejected ++
            (if requeue then [] else nackedOf w.settleFaults deliveries) := by
  intro deliveries
  induction deliveries with
  | nil =>
    intro joined w
    cases requeue with
    | true => exact ⟨⟨_, rfl⟩, rfl, rfl, (List.append_nil _).symm, (List.append_nil _).symm⟩
    | false => exact ⟨⟨_, rfl⟩, rfl, rfl, (List.append_nil _).symm, (List.append_nil _).symm⟩
  | cons delivery rest ih =>
    intro joined w
    rw [nackDeliveries, nackedOf]
    cases hfault : w.settleFaults 0 with
    | some e =>
      have hstep : handleChanges (.nack delivery requeue) w = some (.error e, w.settle) := by
        simp [handleChanges, hfault]
      refine wp_ask_bind hstep ?_
      exact ih _ w.settle
    | none =>
      have hstep : handleChanges (.nack delivery requeue) w = some (.ok (),
          if requeue then { w.settle with requeued := w.requeued ++ [delivery.tag] }
          else { w.settle with rejected := w.rejected ++ [delivery.tag] }) := by
        simp [handleChanges, hfault]
      refine wp_ask_bind hstep ?_
      refine wp_mono (ih joined _) fun r w' ⟨hok, hacked, hpassed, hrequeued, hrejected⟩ => ?_
      rw [hacked, hpassed, hrequeued, hrejected]
      cases requeue with
      | true => exact ⟨hok, rfl, rfl, List.append_assoc _ _ _, rfl⟩
      | false => exact ⟨hok, rfl, rfl, rfl, List.append_assoc _ _ _⟩

theorem nackedOf_subset (faults : Nat → Option String) (deliveries : List Delivery) :
    nackedOf faults deliveries ⊆ deliveries.map Delivery.tag := by
  induction deliveries generalizing faults with
  | nil => exact List.Subset.refl _
  | cons delivery rest ih =>
    rw [nackedOf, List.map_cons]
    split
    · exact List.cons_subset_cons _ (ih _)
    · exact List.subset_cons_of_subset _ (ih _)

/-- All deliveries are nacked when no settlement fails, and only then. -/
theorem all_nacked_iff {deliveries : List Delivery} (hnodup : (deliveries.map Delivery.tag).Nodup)
    (faults : Nat → Option String) :
    (∀ delivery ∈ deliveries, delivery.tag ∈ nackedOf faults deliveries) ↔
      ∀ k < deliveries.length, faults k = none := by
  induction deliveries generalizing faults with
  | nil => simp
  | cons delivery rest ih =>
    obtain ⟨hnew, hnodup⟩ := List.nodup_cons.mp hnodup
    rw [List.forall_mem_cons, List.length_cons, Nat.forall_lt_succ_left, nackedOf]
    refine and_congr ?_ ((forall₂_congr fun other hother => ?_).trans (ih hnodup _))
    · split
      · rename_i hnone
        simp [hnone]
      · rename_i hsome
        refine iff_of_false (fun hmem => hnew (nackedOf_subset _ _ hmem)) hsome
    · have hne : other.tag ≠ delivery.tag := fun heq => hnew (heq ▸ List.mem_map_of_mem hother)
      split
      · simp [hne]
      · simp

/-- All deliveries are acked when no settlement fails, and only then. -/
theorem all_acked_iff {deliveries : List Delivery} (hnodup : (deliveries.map Delivery.tag).Nodup)
    (faults : Nat → Option String) :
    (∀ delivery ∈ deliveries, delivery.tag ∈ ackedOf faults deliveries) ↔
      ∀ k < deliveries.length, faults k = none := by
  induction deliveries generalizing faults with
  | nil => simp
  | cons delivery rest ih =>
    obtain ⟨hnew, hnodup⟩ := List.nodup_cons.mp hnodup
    rw [List.forall_mem_cons, List.length_cons, Nat.forall_lt_succ_left, ackedOf]
    split
    · rename_i hnone
      refine and_congr (by simp [hnone]) ?_
      refine (forall₂_congr fun other hother => ?_).trans (ih hnodup _)
      have hne : other.tag ≠ delivery.tag := fun heq => hnew (heq ▸ List.mem_map_of_mem hother)
      simp [hne]
    · rename_i hsome
      exact iff_of_false (fun h => nomatch h.1) fun h => hsome h.1

variable {δ ρ : Type} {decode : δ → Except String ρ}

/-- No delivery is left out of a batch that could be decoded. -/
theorem objectChangeRequests_ok {deliveries : List δ} {requests : List ρ}
    (h : objectChangeRequests decode deliveries = .ok requests) :
    ∀ delivery ∈ deliveries, ∃ request ∈ requests, decode delivery = .ok request := by
  induction deliveries generalizing requests with
  | nil => exact fun _ hmem => nomatch hmem
  | cons delivery rest ih =>
    rw [objectChangeRequests] at h
    cases hdecode : decode delivery with
    | error e => simp [hdecode] at h
    | ok request =>
      cases hrest : objectChangeRequests decode rest with
      | error e => simp [hdecode, hrest, Except.map] at h
      | ok more =>
        simp only [hdecode, hrest, Except.map, Except.ok.injEq] at h
        subst h
        have hfirst : ∃ found ∈ request :: more, decode delivery = .ok found :=
          ⟨request, List.mem_cons_self, hdecode⟩
        refine List.forall_mem_cons.mpr ⟨hfirst, fun other hmem => ?_⟩
        obtain ⟨found, hfound, hok⟩ := ih hrest other hmem
        exact ⟨found, List.mem_cons_of_mem _ hfound, hok⟩

/-- A batch is refused for a delivery in it. -/
theorem objectChangeRequests_error {deliveries : List δ} {e : String}
    (h : objectChangeRequests decode deliveries = .error e) :
    ∃ delivery ∈ deliveries, decode delivery = .error e := by
  induction deliveries with
  | nil => cases h
  | cons delivery rest ih =>
    rw [objectChangeRequests] at h
    cases hdecode : decode delivery with
    | error e' =>
      simp only [hdecode, Except.error.injEq] at h
      subst h
      exact ⟨delivery, List.mem_cons_self, hdecode⟩
    | ok request =>
      cases hrest : objectChangeRequests decode rest with
      | error e' =>
        simp only [hdecode, hrest, Except.map, Except.error.injEq] at h
        subst h
        obtain ⟨other, hmem, hother⟩ := ih hrest
        exact ⟨other, List.mem_cons_of_mem _ hmem, hother⟩
      | ok more => simp [hdecode, hrest, Except.map] at h

end Fates

/-- What is asked of a batch: a delivery that can be decoded is passed on and acked, or put back,
and only one that cannot be is rejected for good. -/
def DecodableSettled (decode : Delivery → Except String (ObjectChangeRequest String))
    (deliveries : List Delivery) (w : ChangeWorld) : Prop :=
  ∀ delivery ∈ deliveries,
    (∀ request, decode delivery = .ok request →
      request ∈ w.passed ∧ delivery.tag ∈ w.acked ∨ delivery.tag ∈ w.requeued) ∧
    (delivery.tag ∈ w.rejected → ∃ e, decode delivery = .error e)

section Settled

variable {decode : Delivery → Except String (ObjectChangeRequest String)}
  {deliveries : List Delivery} {w : ChangeWorld}

/-- A batch of which nothing is acked or put back, because one delivery cannot be decoded or the
reading failed: it may hold nothing that can be decoded. -/
theorem DecodableSettled.dropped_iff (hacked : w.acked = []) (hrequeued : w.requeued = [])
    {settled : Prop} (hdropped : ¬ settled) : DecodableSettled decode deliveries w ↔
      (∀ delivery ∈ deliveries, ∃ e, decode delivery = .error e) ∨ settled := by
  constructor
  · intro hsettled
    refine Or.inl fun delivery hmem => ?_
    cases hok : decode delivery with
    | error e => exact ⟨e, rfl⟩
    | ok request =>
      rcases (hsettled delivery hmem).1 request hok with ⟨-, hack⟩ | hrequeue
      · rw [hacked] at hack
        cases hack
      · rw [hrequeued] at hrequeue
        cases hrequeue
  · rintro (hnone | hsettled)
    · refine fun delivery hmem => ⟨fun request hok => ?_, fun _ => hnone delivery hmem⟩
      obtain ⟨e, herror⟩ := hnone delivery hmem
      cases herror.symm.trans hok
    · exact absurd hsettled hdropped

/-- A batch that is put back. -/
theorem DecodableSettled.requeued_iff (hnodup : (deliveries.map Delivery.tag).Nodup)
    (hevery : ∀ delivery ∈ deliveries, ∃ request, decode delivery = .ok request)
    {faults : Nat → Option String} (hacked : w.acked = []) (hrejected : w.rejected = [])
    (hrequeued : w.requeued = nackedOf faults deliveries) :
    DecodableSettled decode deliveries w ↔ ∀ k < deliveries.length, faults k = none := by
  rw [← all_nacked_iff hnodup faults]
  refine forall₂_congr fun delivery hmem => ?_
  rw [hacked, hrequeued, hrejected]
  obtain ⟨request, hok⟩ := hevery delivery hmem
  simp [hok]

/-- A batch that is processed and acked. -/
theorem DecodableSettled.acked_iff (hnodup : (deliveries.map Delivery.tag).Nodup)
    (hall : ∀ delivery ∈ deliveries, ∃ request ∈ w.passed, decode delivery = .ok request)
    {faults : Nat → Option String} (hacked : w.acked = ackedOf faults deliveries)
    (hrequeued : w.requeued = []) (hrejected : w.rejected = []) :
    DecodableSettled decode deliveries w ↔ ∀ k < deliveries.length, faults k = none := by
  rw [← all_acked_iff hnodup faults]
  refine forall₂_congr fun delivery hmem => ?_
  obtain ⟨request, hin, hok⟩ := hall delivery hmem
  rw [hacked, hrequeued, hrejected]
  simp [hok, hin]

end Settled

/-- What the broker does with a batch. -/
def settleChanges (unmarshal : Bytes → Except String (ObjectChangeRequest String))
    (unmarshalDigest : Bytes → Except String String) (deliveries : List Delivery) :
    Prog ChangePrim ChangeResp (Nat × Option String) :=
  settleObjectChanges changeConsumer
    (fun delivery => objectChangeRequest unmarshal unmarshalDigest delivery.body)
    (fun requests => Prog.ask (ChangePrim.process requests)) deliveries

/-- A batch that was read: every delivery that can be decoded is processed and acked or put back if
and only if none can be decoded, or all can be and no settlement fails. -/
theorem settleChanges_iff (unmarshal : Bytes → Except String (ObjectChangeRequest String))
    (unmarshalDigest : Bytes → Except String String) {deliveries : List Delivery}
    (hnodup : (deliveries.map Delivery.tag).Nodup)
    (arrivals : Nat → Except String (Option Delivery)) (outcome : Option String)
    (faults : Nat → Option String) :
    (settleChanges unmarshal unmarshalDigest deliveries).wp handleChanges
      { arrivals := arrivals, outcome := outcome, settleFaults := faults } fun r w' =>
        (∃ out, r = .ok out) ∧
        (DecodableSettled (fun delivery => objectChangeRequest unmarshal unmarshalDigest
            delivery.body) deliveries w' ↔
          (∀ delivery ∈ deliveries,
            ∃ e, objectChangeRequest unmarshal unmarshalDigest delivery.body = .error e) ∨
          (∀ delivery ∈ deliveries,
            ∃ request, objectChangeRequest unmarshal unmarshalDigest delivery.body = .ok request) ∧
            ∀ k < deliveries.length, faults k = none) := by
  generalize hdecode : (fun delivery : Delivery =>
    objectChangeRequest unmarshal unmarshalDigest delivery.body) = decode
  have hdec : ∀ delivery : Delivery,
      objectChangeRequest unmarshal unmarshalDigest delivery.body = decode delivery :=
    fun delivery => congrFun hdecode delivery
  simp only [hdec]
  rw [settleChanges, hdecode, settleObjectChanges]
  cases deliveries with
  | nil =>
    exact ⟨⟨_, rfl⟩, iff_of_true (fun _ hmem => nomatch hmem) (Or.inl fun _ hmem => nomatch hmem)⟩
  | cons first rest =>
    generalize hbatch : first :: rest = deliveries at hnodup ⊢
    have hfirst : first ∈ deliveries := hbatch ▸ List.mem_cons_self
    rw [if_neg (by simp [← hbatch])]
    cases hrequests : objectChangeRequests decode deliveries with
    | error e =>
      obtain ⟨bad, hbad, hbaddecode⟩ := objectChangeRequests_error hrequests
      refine wp_bind.mpr (wp_mono (nackDeliveries_nacks false deliveries none _) ?_)
      rintro r w' ⟨⟨out, rfl⟩, hacked, -, hrequeued, -⟩
      refine ⟨⟨_, rfl⟩, DecodableSettled.dropped_iff hacked hrequeued fun ⟨hevery, _⟩ => ?_⟩
      obtain ⟨request, hok⟩ := hevery bad hbad
      cases hbaddecode.symm.trans hok
    | ok requests =>
      have hall := objectChangeRequests_ok hrequests
      have hsome : ¬ ∀ delivery ∈ deliveries, ∃ e, decode delivery = .error e := by
        intro hnone
        obtain ⟨e, herror⟩ := hnone first hfirst
        obtain ⟨request, -, hok⟩ := hall first hfirst
        cases herror.symm.trans hok
      have hevery : ∀ delivery ∈ deliveries, ∃ request, decode delivery = .ok request := by
        intro delivery hmem
        obtain ⟨request, -, hok⟩ := hall delivery hmem
        exact ⟨request, hok⟩
      rw [or_iff_right hsome, and_iff_right hevery]
      cases outcome with
      | some e =>
        refine wp_ask_bind (rfl : handleChanges (.process requests) _ = some (.error e, _)) ?_
        refine wp_bind.mpr (wp_mono (nackDeliveries_nacks true deliveries none _) ?_)
        rintro r w' ⟨⟨out, rfl⟩, hacked, -, hrequeued, hrejected⟩
        have hend := DecodableSettled.requeued_iff hnodup hevery hacked hrejected hrequeued
        -- the error of a nack is joined to that of the process function
        cases out with
        | none => exact ⟨⟨_, rfl⟩, hend⟩
        | some e' => exact ⟨⟨_, rfl⟩, hend⟩
      | none =>
        refine wp_ask_bind (rfl : handleChanges (.process requests) _ = some (.ok (), _)) ?_
        refine wp_mono (ackDeliveries_acks deliveries 0 _) ?_
        rintro r w' ⟨hout, hacked, hrequeued, hrejected, hpassed⟩
        refine ⟨hout, DecodableSettled.acked_iff hnodup ?_ hacked hrequeued hrejected⟩
        rw [hpassed]
        exact hall

/-- `ProcessObjectChanges` of this broker. -/
def processChanges (unmarshal : Bytes → Except String (ObjectChangeRequest String))
    (unmarshalDigest : Bytes → Except String String) (limit : Int) :
    Prog ChangePrim ChangeResp (Nat × Option String) :=
  processObjectChanges changeConsumer
    (fun delivery => objectChangeRequest unmarshal unmarshalDigest delivery.body)
    (fun requests => Prog.ask (ChangePrim.process requests)) limit

/-- **What becomes of a batch.** Whatever arrives, and whatever the outcome of the process function
and the errors of the settlements: every delivery that was read and can be decoded is processed and
acked or put back, and no such delivery is rejected for good, if and only if none of the batch can
be decoded, or all of it can be and neither the reading nor a settlement fails. -/
theorem decodable_settled_iff (unmarshal : Bytes → Except String (ObjectChangeRequest String))
    (unmarshalDigest : Bytes → Except String String) (limit : Int)
    {arrivals : Nat → Except String (Option Delivery)} (hwaits : arrivals 0 ≠ .ok none)
    (hnodup : ((readOf arrivals (batchLimit limit)).1.map Delivery.tag).Nodup)
    (outcome : Option String) (faults : Nat → Option String) :
    (processChanges unmarshal unmarshalDigest limit).wp handleChanges
      { arrivals := arrivals, outcome := outcome, settleFaults := faults } fun r w' =>
        (∃ out, r = .ok out) ∧
        (DecodableSettled (fun delivery => objectChangeRequest unmarshal unmarshalDigest
            delivery.body) (readOf arrivals (batchLimit limit)).1 w' ↔
          (∀ delivery ∈ (readOf arrivals (batchLimit limit)).1,
            ∃ e, objectChangeRequest unmarshal unmarshalDigest delivery.body = .error e) ∨
          (∀ delivery ∈ (readOf arrivals (batchLimit limit)).1,
            ∃ request, objectChangeRequest unmarshal unmarshalDigest delivery.body = .ok request) ∧
            (readOf arrivals (batchLimit limit)).2 = none ∧
            ∀ k < (readOf arrivals (batchLimit limit)).1.length, faults k = none) := by
  refine wp_bind.mpr (wp_mono (objectChangeDeliveries_reads _ [] _ fun _ => .inr hwaits) ?_)
  rintro r w₁ ⟨rfl, hw₁⟩
  rw [hw₁, List.nil_append]
  dsimp only
  generalize readOf arrivals (batchLimit limit) = read at hnodup ⊢
  obtain ⟨deliveries, failure⟩ := read
  cases failure with
  | some e =>
    refine ⟨⟨_, rfl⟩, DecodableSettled.dropped_iff rfl rfl ?_⟩
    rintro ⟨-, hnone, -⟩
    cases hnone
  | none =>
    refine wp_mono (settleChanges_iff unmarshal unmarshalDigest hnodup _ outcome faults) ?_
    rintro r w' ⟨hok, hiff⟩
    exact ⟨hok, hiff.trans (by simp)⟩

/-- A decoder that knows one request, and refuses an empty body. -/
def unmarshalNonEmpty (body : Bytes) : Except String (ObjectChangeRequest String) :=
  if body.isEmpty then .error "unexpected end of JSON input" else .ok { objectDigests := ["d"] }

/-- These deliveries arrive, and then nothing for now. -/
def arriving (deliveries : List Delivery) : Nat → Except String (Option Delivery) :=
  fun n => .ok deliveries[n]?

/-- **A malformed message discards a valid one**: it is not processed, and rejected for good. -/
theorem malformed_discards_valid :
    (∃ request, objectChangeRequest unmarshalNonEmpty (fun _ => .error "") [123] = .ok request) ∧
      ((processChanges unmarshalNonEmpty (fun _ => .error "") 0).run handleChanges
        { arrivals := arriving [⟨0, []⟩, ⟨1, [123]⟩] }).any (fun out => out.2.passed.isEmpty &&
          out.2.requeued.isEmpty && out.2.rejected.contains 1) = true := by
  refine ⟨⟨{ objectDigests := ["d"] }, rfl⟩, ?_⟩
  decide +kernel

/-- Two valid messages are processed and acked. -/
theorem decodable_settled_valid :
    (processChanges unmarshalNonEmpty (fun _ => .error "") 0).wp handleChanges
      { arrivals := arriving [⟨0, [123]⟩, ⟨1, [123]⟩] } fun _ w' => DecodableSettled
        (fun delivery => objectChangeRequest unmarshalNonEmpty (fun _ => .error "") delivery.body)
        [⟨0, [123]⟩, ⟨1, [123]⟩] w' := by
  have hread : readOf (arriving [⟨0, [123]⟩, ⟨1, [123]⟩]) (batchLimit 0) =
      ([⟨0, [123]⟩, ⟨1, [123]⟩], none) := by
    decide +kernel
  refine wp_mono (decodable_settled_iff unmarshalNonEmpty (fun _ => .error "") 0
    (by decide) (by rw [hread]; decide) none fun _ => none) fun r w' h => ?_
  rw [hread] at h
  refine h.2.mpr (Or.inr ⟨?_, rfl, fun _ _ => rfl⟩)
  intro delivery hmem
  have hbody : delivery.body = [123] := by
    simp only [List.mem_cons, List.not_mem_nil, or_false] at hmem
    rcases hmem with rfl | rfl
    · rfl
    · rfl
  rw [hbody]
  exact ⟨{ objectDigests := ["d"] }, rfl⟩

end Gmeow
