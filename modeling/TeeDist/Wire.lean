import TeeDist.Refinement

/-!
# Messages on the wire

`td_wire_msg_t`, the one message format of both transports, and its byte image.  The two
sides of a session are built with the same layout: the fields in order, little-endian, with
four bytes of padding before the region header.
-/

namespace TeeDist

open Bytes

/-- `TD_WIRE_MAGIC`. -/
def wireMagic : UInt32 := 0x54445752

/-- `td_wire_op_t`. -/
inductive WireOp where
  | hello
  | read
  | write
  | cas
  | evict
  | ack
  | close
deriving DecidableEq, Repr

/-- The number of an operation. -/
def WireOp.code : WireOp → UInt16
  | .hello => 1
  | .read => 2
  | .write => 3
  | .cas => 4
  | .evict => 5
  | .ack => 6
  | .close => 7

/-- The operation of a number, if it is one. -/
def WireOp.ofCode (code : UInt16) : Option WireOp :=
  [WireOp.hello, .read, .write, .cas, .evict, .ack, .close].find? fun op => op.code = code

@[simp] theorem WireOp.ofCode_code (op : WireOp) : WireOp.ofCode op.code = some op := by
  cases op <;> decide

/-- `TD_WIRE_FLAG_PROFILE`. -/
def wireFlagProfile : UInt32 := 0x1

/-- `td_wire_msg_t`. -/
structure WireMsg where
  magic : UInt32
  op : UInt16
  status : UInt16
  offset : UInt64
  length : UInt64
  compare : UInt64
  swap : UInt64
  remoteAddr : UInt64
  rkey : UInt32
  flags : UInt32
  reserved : UInt32
  header : RegionHeader
  profileTotalNs : UInt64
  profileStage1Ns : UInt64
  profileStage2Ns : UInt64
  profileStage3Ns : UInt64
deriving DecidableEq

/-- A message of zero bytes. -/
def WireMsg.zero : WireMsg where
  magic := 0
  op := 0
  status := 0
  offset := 0
  length := 0
  compare := 0
  swap := 0
  remoteAddr := 0
  rkey := 0
  flags := 0
  reserved := 0
  header := ⟨0, 0, 0, 0, 0, 0, 0, 0, 0, 0, 0⟩
  profileTotalNs := 0
  profileStage1Ns := 0
  profileStage2Ns := 0
  profileStage3Ns := 0

/-- `sizeof(td_wire_msg_t)`. -/
def wireBytes : Nat := 184

/-- The bytes of a message. -/
def WireMsg.toBytes (m : WireMsg) : List UInt8 :=
  ofUInt32 m.magic ++ (ofUInt16 m.op ++ (ofUInt16 m.status ++ (ofUInt64 m.offset ++
    (ofUInt64 m.length ++ (ofUInt64 m.compare ++ (ofUInt64 m.swap ++ (ofUInt64 m.remoteAddr ++
      (ofUInt32 m.rkey ++ (ofUInt32 m.flags ++ (ofUInt32 m.reserved ++ (List.replicate 4 0 ++
        (m.header.toBytes ++ (ofUInt64 m.profileTotalNs ++ (ofUInt64 m.profileStage1Ns ++
          (ofUInt64 m.profileStage2Ns ++ ofUInt64 m.profileStage3Ns)))))))))))))))

/-- The message whose bytes are given. -/
def WireMsg.ofBytes (bs : List UInt8) : WireMsg where
  magic := toUInt32 (bs.take 4)
  op := toUInt16 ((bs.drop 4).take 2)
  status := toUInt16 ((bs.drop 6).take 2)
  offset := toUInt64 ((bs.drop 8).take 8)
  length := toUInt64 ((bs.drop 16).take 8)
  compare := toUInt64 ((bs.drop 24).take 8)
  swap := toUInt64 ((bs.drop 32).take 8)
  remoteAddr := toUInt64 ((bs.drop 40).take 8)
  rkey := toUInt32 ((bs.drop 48).take 4)
  flags := toUInt32 ((bs.drop 52).take 4)
  reserved := toUInt32 ((bs.drop 56).take 4)
  header := RegionHeader.ofMem (store (fun _ => 0) 0 ((bs.drop 64).take 88))
  profileTotalNs := toUInt64 ((bs.drop 152).take 8)
  profileStage1Ns := toUInt64 ((bs.drop 160).take 8)
  profileStage2Ns := toUInt64 ((bs.drop 168).take 8)
  profileStage3Ns := toUInt64 ((bs.drop 176).take 8)

@[simp] theorem WireMsg.length_toBytes (m : WireMsg) : m.toBytes.length = wireBytes := by
  simp [WireMsg.toBytes, wireBytes, headerBytes]

/-- A message is read back from its bytes. -/
@[simp] theorem WireMsg.ofBytes_toBytes (m : WireMsg) : WireMsg.ofBytes m.toBytes = m := by
  have hheader : ((m.toBytes.drop 64).take 88) = m.header.toBytes := by
    simp [WireMsg.toBytes, List.drop_append, List.drop_of_length_le, headerBytes]
  unfold WireMsg.ofBytes
  rw [hheader, RegionHeader.ofMem_toBytes]
  simp [WireMsg.toBytes, List.drop_append, List.drop_of_length_le, List.take_of_length_le,
    headerBytes]

end TeeDist
