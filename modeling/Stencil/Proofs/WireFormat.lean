import Stencil.Proofs.JsonRoundTrip
import Stencil.Remote.Message

/-! Messages on the wire. Every request, reply and undo is read back from its payload, whatever texts it
carries, and nothing else is read there: a payload has one message of one kind. -/
namespace Stencil

namespace Json

theorem strings?_array (ss : List String) : (Json.array (ss.map .string)).strings? = some ss := by
  change (ss.map Json.string).mapM string? = some ss
  induction ss with
  | nil => rfl
  | cons s rest ih =>
    rw [List.map_cons, List.mapM_cons, ih]
    rfl

end Json

namespace Remote

open Markup (Undo)

theorem Undo.ofJson?_toJson (u : Undo) : Undo.ofJson? (Undo.toJson u) = some u := by
  cases u <;> rfl

theorem Undo.isWordy_toJson (u : Undo) : (Undo.toJson u).isWordy = true := by
  cases u <;> rfl

theorem Undo.depth_toJson (u : Undo) : (Undo.toJson u).depth = 1 := by
  cases u <;> rfl

namespace Request

theorem ofJson?_toJson (r : Request) : ofJson? r.toJson = some r := by
  cases r <;> rfl

theorem isWordy_toJson (r : Request) : r.toJson.isWordy = true := by
  cases r <;> rfl

theorem depth_toJson (r : Request) : r.toJson.depth = 1 := by
  cases r <;> rfl

end Request

namespace Response

theorem ofJson?_toJson (r : Response) : ofJson? r.toJson = some r := by
  cases r with
  | names ns =>
    change ((Json.array (ns.map .string)).strings?).map names = some (names ns)
    rw [Json.strings?_array, Option.map_some]
  | value v => cases v <;> rfl
  | undo u =>
    change (Undo.ofJson? (Undo.toJson u)).map undo = some (undo u)
    rw [Undo.ofJson?_toJson, Option.map_some]
  | tag name => rfl
  | stale => rfl
  | error message => rfl

theorem isWordy_toJson (r : Response) : r.toJson.isWordy = true := by
  cases r with
  | names ns => simp [toJson, record, Json.isWordy, Json.membersWordy, Json.allWordy_iff]
  | value v => cases v <;> rfl
  | undo u => simp [toJson, record, Json.isWordy, Json.membersWordy, Undo.isWordy_toJson]
  | tag name => rfl
  | stale => rfl
  | error message => rfl

theorem depth_toJson_le (r : Response) : r.toJson.depth ≤ 2 := by
  cases r with
  | names ns =>
    have flat : Json.depthAll (ns.map .string) ≤ 0 := Json.depthAll_le_iff.mpr (by simp [Json.depth])
    simpa [toJson, record, Json.depth, Json.depthMembers] using flat
  | value v => cases v <;> simp [toJson, record, optional, Json.depth, Json.depthMembers]
  | undo u => simp [toJson, record, Json.depth, Json.depthMembers, Undo.depth_toJson]
  | tag name => simp [toJson, record, Json.depth, Json.depthMembers]
  | stale => simp [toJson, record, Json.depth, Json.depthMembers]
  | error message => simp [toJson, record, Json.depth, Json.depthMembers]

end Response

/-- All that is written on the wire. -/
inductive Message where
  | request (request : Request)
  | response (response : Response)
  | undo (undo : Undo)
  deriving DecidableEq, Repr

namespace Message

def toJson : Message → Json
  | request r => r.toJson
  | response r => r.toJson
  | undo u => Undo.toJson u

def encode (m : Message) : String := m.toJson.compact

def request? : Message → Option Request
  | request r => some r
  | _ => none

def response? : Message → Option Response
  | response r => some r
  | _ => none

def undo? : Message → Option Undo
  | undo u => some u
  | _ => none

theorem parse?_encode (m : Message) : Json.parse? m.encode = some m.toJson := by
  apply Json.parse?_compact
  · cases m with
    | request r => exact r.isWordy_toJson
    | response r => exact r.isWordy_toJson
    | undo u => exact Undo.isWordy_toJson u
  · cases m with
    | request r => exact Nat.le_trans (Nat.le_of_eq r.depth_toJson) (by decide)
    | response r => exact Nat.le_trans r.depth_toJson_le (by decide)
    | undo u => exact Nat.le_trans (Nat.le_of_eq (Undo.depth_toJson u)) (by decide)

-- The three kinds name their variants in members of different names, so none is taken for another.

theorem decode?_request (m : Message) : Request.decode? m.encode = m.request? := by
  unfold Request.decode?
  rw [m.parse?_encode, Option.bind_some]
  cases m with
  | request r => exact r.ofJson?_toJson
  | response r => cases r <;> rfl
  | undo u => cases u <;> rfl

theorem decode?_response (m : Message) : Response.decode? m.encode = m.response? := by
  unfold Response.decode?
  rw [m.parse?_encode, Option.bind_some]
  cases m with
  | request r => cases r <;> rfl
  | response r => exact r.ofJson?_toJson
  | undo u => cases u <;> rfl

theorem decode?_undo (m : Message) : Undo.decode? m.encode = m.undo? := by
  unfold Undo.decode?
  rw [m.parse?_encode, Option.bind_some]
  cases m with
  | request r => cases r <;> rfl
  | response r => cases r <;> rfl
  | undo u => exact Undo.ofJson?_toJson u

theorem eq_of_kinds {m m' : Message} (requests : m.request? = m'.request?)
    (responses : m.response? = m'.response?) (undos : m.undo? = m'.undo?) : m = m' := by
  cases m <;> cases m' <;> simp_all [request?, response?, undo?]

theorem encode_injective : Function.Injective encode := by
  intro m m' same
  apply eq_of_kinds
  · rw [← m.decode?_request, same, m'.decode?_request]
  · rw [← m.decode?_response, same, m'.decode?_response]
  · rw [← m.decode?_undo, same, m'.decode?_undo]

end Message

theorem Request.decode?_encode (r : Request) : decode? r.encode = some r :=
  (Message.request r).decode?_request

theorem Response.decode?_encode (r : Response) : decode? r.encode = some r :=
  (Message.response r).decode?_response

theorem Undo.decode?_encode (u : Undo) : decode? (encode u) = some u := (Message.undo u).decode?_undo

/-- The wire format loses nothing: from the payload of a message each reader gets that message if it is of
the reader's kind, and nothing otherwise; so different messages have different payloads. -/
theorem messages_read_back :
    (∀ r : Request, Request.decode? r.encode = some r) ∧
      (∀ r : Response, Response.decode? r.encode = some r) ∧
      (∀ u : Undo, Undo.decode? (Undo.encode u) = some u) ∧
      (∀ m : Message, Request.decode? m.encode = m.request? ∧ Response.decode? m.encode = m.response? ∧
        Undo.decode? m.encode = m.undo?) ∧
      Function.Injective Message.encode :=
  ⟨Request.decode?_encode, Response.decode?_encode, Undo.decode?_encode,
    fun m => ⟨m.decode?_request, m.decode?_response, m.decode?_undo⟩, Message.encode_injective⟩

end Remote

end Stencil
