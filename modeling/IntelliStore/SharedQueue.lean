import IntelliStore.Library.Json

/-! The callbacks that `consumeJson` and `subscribeEvent` give to `channel.consume`. -/

namespace IntelliStore.SharedQueue
open Library

inductive JsError where
  | parseError
  | thrown (message : String)
  deriving DecidableEq

/-- How a promise ends. -/
abbrev Outcome := Except JsError Unit

inductive ChannelCall where
  | ack
  | nack (allUpTo requeue : Bool)
  deriving DecidableEq

/-- What the methods of the channel do when they are called. -/
structure Channel where
  ack : Outcome
  nack : Outcome

/-- A promise, with the calls that its reactions make before it settles. -/
structure Promise where
  calls : List ChannelCall
  outcome : Outcome

namespace Promise

def ofOutcome (outcome : Outcome) : Promise := ⟨[], outcome⟩

/-- `.then(() => ..)` -/
def andThen (p : Promise) (call : ChannelCall) (result : Outcome) : Promise :=
  match p.outcome with
  | .ok () => ⟨p.calls ++ [call], result⟩
  | .error _ => p

/-- `.catch(() => ..)` -/
def orElse (p : Promise) (call : ChannelCall) (result : Outcome) : Promise :=
  match p.outcome with
  | .ok () => p
  | .error _ => ⟨p.calls ++ [call], result⟩

end Promise

structure Message where
  content : List UInt8
  routingKey : String

/-- What becomes of a delivery: the calls on the channel, and what the callback throws. -/
structure Delivery where
  calls : List ChannelCall
  escaped : Option JsError
  deriving DecidableEq

/-- `JSON.parse(msg.content.toString())` -/
def Message.payload (msg : Message) : Except JsError Json :=
  match Json.parse (utf8Decode msg.content) with
  | some payload => .ok payload
  | none => .error .parseError

/-- `handler(..).then(() => channel.ack(msg)).catch(() => channel.nack(msg, false, false))`, where
the call of the handler throws or returns a promise. -/
def settle (channel : Channel) : Except JsError Outcome → Delivery
  | .error e => ⟨[], some e⟩
  | .ok outcome =>
    let promise := ((Promise.ofOutcome outcome).andThen .ack channel.ack).orElse
      (.nack false false) channel.nack
    ⟨promise.calls, none⟩

def consumeJson (channel : Channel) (handler : Json → Except JsError Outcome) :
    Option Message → Delivery
  | none => ⟨[], none⟩
  | some msg => settle channel (msg.payload >>= handler)

def subscribeEvent (channel : Channel) (handler : Json → String → Except JsError Outcome) :
    Option Message → Delivery
  | none => ⟨[], none⟩
  | some msg => settle channel (msg.payload >>= fun payload => handler payload msg.routingKey)

/-- One call of `ack` or `nack`, and no exception. -/
def Delivery.SettledOnce (delivery : Delivery) : Prop :=
  delivery.calls.length = 1 ∧ delivery.escaped = none

/-- A message whose handler returns a promise is acknowledged when it resolves, and discarded when
it rejects. -/
theorem settle_returned {channel : Channel} (hack : channel.ack = .ok ()) (outcome : Outcome) :
    settle channel (.ok outcome) =
      ⟨[if outcome = .ok () then .ack else .nack false false], none⟩ := by
  cases outcome with
  | ok done => simp [settle, Promise.ofOutcome, Promise.andThen, Promise.orElse, hack]
  | error e => simp [settle, Promise.ofOutcome, Promise.andThen, Promise.orElse]

theorem settledOnce_settle_iff {channel : Channel} (hack : channel.ack = .ok ())
    (returned : Except JsError Outcome) :
    (settle channel returned).SettledOnce ↔ ∃ outcome, returned = .ok outcome := by
  cases returned with
  | error e =>
    refine iff_of_false (fun h => ?_) ?_
    · cases h.2
    · rintro ⟨outcome, h⟩
      cases h
  | ok outcome =>
    rw [settle_returned hack]
    exact iff_of_true ⟨rfl, rfl⟩ ⟨outcome, rfl⟩

theorem bind_eq_ok {α β : Type} {x : Except JsError α} {f : α → Except JsError β} {b : β} :
    (x >>= f) = .ok b ↔ ∃ a, x = .ok a ∧ f a = .ok b := by
  cases x with
  | error e => simp [bind, Except.bind]
  | ok a => simp [bind, Except.bind]

/-- A message is settled exactly once if and only if its body is a JSON text and its handler, called
with the value, does not throw. -/
theorem settled_once_iff (channel : Channel) (hack : channel.ack = .ok ()) (msg : Message) :
    (∀ handler, (consumeJson channel handler (some msg)).SettledOnce ↔
      ∃ payload outcome, msg.payload = .ok payload ∧ handler payload = .ok outcome) ∧
    ∀ handler, (subscribeEvent channel handler (some msg)).SettledOnce ↔
      ∃ payload outcome, msg.payload = .ok payload ∧
        handler payload msg.routingKey = .ok outcome := by
  have hreturns : ∀ f : Json → Except JsError Outcome,
      (settle channel (msg.payload >>= f)).SettledOnce ↔
        ∃ payload outcome, msg.payload = .ok payload ∧ f payload = .ok outcome := by
    intro f
    rw [settledOnce_settle_iff hack, exists_comm]
    exact exists_congr fun outcome => bind_eq_ok
  exact ⟨hreturns, fun handler => hreturns fun payload => handler payload msg.routingKey⟩

/-! The body of a message is a bracket that nothing closes; the other one is an empty list. -/

theorem malformed_body_not_settled : ¬∀ (channel : Channel), channel.ack = .ok () →
    channel.nack = .ok () → ∀ (msg : Message) (handler : Json → Except JsError Outcome),
      (consumeJson channel handler (some msg)).SettledOnce := by
  intro h
  have hsettled := h ⟨.ok (), .ok ()⟩ rfl rfl ⟨[0x5B], "chunk.uploaded"⟩ fun _ => .ok (.ok ())
  obtain ⟨outcome, hreturned⟩ := (settledOnce_settle_iff rfl _).mp hsettled
  obtain ⟨payload, hpayload, -⟩ := bind_eq_ok.mp hreturned
  have hnone : Json.parse (utf8Decode [0x5B]) = none := by decide
  rw [Message.payload, hnone] at hpayload
  cases hpayload

theorem settled_once_iff_sample :
    (subscribeEvent ⟨.ok (), .ok ()⟩ (fun _ _ => .ok (.error (.thrown "unavailable")))
      (some ⟨[0x5B, 0x5D], "chunk.uploaded"⟩)).SettledOnce := by
  have hsome : ∃ payload, Json.parse (utf8Decode [0x5B, 0x5D]) = some payload := by
    exact ⟨.array [], rfl⟩
  obtain ⟨payload, hparse⟩ := hsome
  refine ((settled_once_iff _ rfl _).2 _).mpr ⟨payload, _, ?_, rfl⟩
  rw [Message.payload, hparse]

end IntelliStore.SharedQueue
