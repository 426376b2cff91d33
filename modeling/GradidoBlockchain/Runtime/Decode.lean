import GradidoBlockchain.Runtime.FromWire

/-!
# From bytes to the record

`grdr_complete_transaction_init_from_protobuf`: the message is decoded, then the body it carries,
and then the record is written. The decoder of pbtools is a parameter, which says what the bytes of
a message are read as.
-/

namespace GradidoBlockchain

open Fallible Fallible.Call

namespace Mapping

/-- How pbtools reads the bytes of the two messages, or what it refuses them with. -/
structure Codec where
  confirmedTransaction : List UInt8 → Except ArnmResult Proto.ConfirmedTransaction
  transactionBody : List UInt8 → Except ArnmResult Proto.TransactionBody

/-- A message decoded in a workspace that is taken for it, with room for all that pbtools allocates in
it, and mapped. -/
def decodeWith {α β : Type} (parse : List UInt8 → Except ArnmResult α) (convert : α → Decode β)
    (bytes : List UInt8) : Decode β :=
  if bytes = [] then refuse .invalidParam
  else do
    allocate
    match parse bytes with
    | .error code => refuse code
    | .ok message => convert message

/-- `grdw_confirmed_transaction_decode`. -/
def confirmedTransactionDecode (codec : Codec) (host : Host) :
    List UInt8 → Decode Wire.ConfirmedTransaction :=
  decodeWith codec.confirmedTransaction (confirmedTransactionFromPb host)

/-- `grdw_transaction_body_decode`. -/
def transactionBodyDecode (codec : Codec) (host : Host) :
    List UInt8 → Decode Wire.TransactionBody :=
  decodeWith codec.transactionBody (transactionBodyFromPbtools host)

/-- A confirmed transaction and its body. -/
def decodeBoth (codec : Codec) (host : Host) (bytes : List UInt8) :
    Decode (Wire.ConfirmedTransaction × Wire.TransactionBody) := do
  let confirmed ← confirmedTransactionDecode codec host bytes
  let body ← transactionBodyDecode codec host confirmed.transaction.bodyBytes
  pure (confirmed, body)

/-- A decoding beside a record that it does not touch. -/
def beside {σ α : Type} (call : Decode α) : Call Failure σ α :=
  within (fun _ => ()) (fun _ state => state) call

/-- `grdr_complete_transaction_init_from_protobuf`. -/
def initFromProtobuf (codec : Codec) (host : RecordHost) (opener : Runtime.Opener)
    (bytes : List UInt8) (communityUuid : Uuid) : Call Failure Runtime.Owned Unit := do
  let (confirmed, body) ← beside (decodeBoth codec host.toHost bytes)
  write Runtime.release
  mapError .refused (completeTransactionFromWire host opener body confirmed communityUuid)

end Mapping

end GradidoBlockchain
