import ChainLab.Config.Wire
import ChainLab.Transaction

/-!
# Transactions as JSON

Authorizations are read as a set: their order and repetitions are lost.
-/

namespace ChainLab

namespace Message

def toJson (m : Message) : Json :=
  .record
    [("contract", .text m.contract),
     ("authorizations", .list Level.toJson m.authorizations.toList),
     ("message_type", .text m.type),
     ("payload", .octets m.payload)]

def ofJson? (json : Json) : Option Message := do
  let [contract, authorizations, type, payload] ←
    json.record? ["contract", "authorizations", "message_type", "payload"] | none
  let levels ← authorizations.list? Level.ofJson?
  some
    { contract := ← contract.text?
      authorizations := Std.ExtTreeSet.ofList levels
      type := ← type.text?
      payload := ← payload.octets? }

end Message

namespace Transaction

def toJson (t : Transaction) : Json :=
  .record
    [("expiration", t.expiration.toJson),
     ("ref_block_num", .natural t.refBlockNum.toNat),
     ("ref_block_prefix", .natural t.refBlockTag.toNat),
     ("messages", .list Message.toJson t.messages)]

def ofJson? (json : Json) : Option Transaction := do
  let [expiration, num, tag, messages] ←
    json.record? ["expiration", "ref_block_num", "ref_block_prefix", "messages"] | none
  some
    { expiration := ← Time.ofJson? expiration
      refBlockNum := ← num.word32?
      refBlockTag := ← tag.word32?
      messages := ← messages.list? Message.ofJson? }

end Transaction

namespace BlockId

def toJson (id : BlockId) : Json := .octets id.digest.toList

def ofJson? (json : Json) : Option BlockId := do
  let bytes ← json.octets?
  some ⟨← Bytes.ofList? 32 bytes⟩

end BlockId

end ChainLab
