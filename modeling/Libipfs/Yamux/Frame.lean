import Libipfs.Lib.ByteOrder

/-!
# Yamux frames

`libp2p/yamux/frame.c`: the packed struct of twelve bytes in front of every message, and the
conversion between the byte order of the host and that of the network.

* `encodeFrame`, `decodeFrame`   the conversions, on the fields of the struct;
* `YamuxFrame.bytes`, `YamuxFrame.ofBytes`   the struct in memory;
* `receiveFrame`                 what `yamux_decode` takes for the frame of a message;
* `receiveFrame_encodeFrame`     **an encoded frame is received as it was set, on every host**;
* `receiveFrame_raw`             one that is not encoded is received as its sender's `encode_frame`
                                 would have left it.
-/

namespace Libp2p
open CSem

def yamuxVersion : UInt8 := 0x00
def yamuxStreamidSession : UInt32 := 0

/-! `enum yamux_frame_type` -/

def yamuxFrameData : UInt8 := 0x00
def yamuxFrameWindowUpdate : UInt8 := 0x01
def yamuxFramePing : UInt8 := 0x02
def yamuxFrameGoAway : UInt8 := 0x03

/-! `enum yamux_frame_flags` -/

def yamuxFrameNil : UInt16 := 0x0000
def yamuxFrameSyn : UInt16 := 0x0001
def yamuxFrameAck : UInt16 := 0x0002
def yamuxFrameFin : UInt16 := 0x0004
def yamuxFrameRst : UInt16 := 0x0008

structure YamuxFrame where
  version : UInt8
  type : UInt8
  flags : UInt16
  streamid : UInt32
  length : UInt32
  deriving DecidableEq, Repr

/-- `sizeof(struct yamux_frame)` -/
def yamuxFrameSize : Nat := 12

/-- `f.flags & flag` -/
def YamuxFrame.hasFlag (f : YamuxFrame) (flag : UInt16) : Bool := f.flags &&& flag != 0

/-! ## the conversions -/

section
variable (host : ByteOrder)

def htons (v : UInt16) : UInt16 := UInt16.ofNat (toNetwork host 2 v.toNat)
def htonl (v : UInt32) : UInt32 := UInt32.ofNat (toNetwork host 4 v.toNat)

def encodeFrame (frame : YamuxFrame) : YamuxFrame :=
  { frame with
    flags := htons host frame.flags
    streamid := htonl host frame.streamid
    length := htonl host frame.length }

/-- `ntohs` and `ntohl` compute what `htons` and `htonl` do -/
def decodeFrame (frame : YamuxFrame) : YamuxFrame :=
  { frame with
    flags := htons host frame.flags
    streamid := htonl host frame.streamid
    length := htonl host frame.length }

/-! ## the struct in memory -/

def YamuxFrame.bytes (frame : YamuxFrame) : List UInt8 :=
  [frame.version, frame.type] ++ store host 2 frame.flags.toNat ++
    store host 4 frame.streamid.toNat ++ store host 4 frame.length.toNat

/-- `memcpy` of the struct from a buffer that has twelve bytes at least -/
def YamuxFrame.ofBytes (bs : List UInt8) : YamuxFrame :=
  { version := bs.getD 0 0
    type := bs.getD 1 0
    flags := UInt16.ofNat (load host ((bs.drop 2).take 2))
    streamid := UInt32.ofNat (load host ((bs.drop 4).take 4))
    length := UInt32.ofNat (load host ((bs.drop 8).take 4)) }

def receiveFrame (bs : List UInt8) : YamuxFrame := decodeFrame host (YamuxFrame.ofBytes host bs)

@[simp] theorem YamuxFrame.length_bytes (frame : YamuxFrame) :
    (frame.bytes host).length = yamuxFrameSize := by
  unfold YamuxFrame.bytes
  simp only [List.length_append, length_store]
  rfl

theorem htons_toNat (v : UInt16) : (htons host v).toNat = toNetwork host 2 v.toNat :=
  UInt16.toNat_ofNat_of_lt' (toNetwork_lt host v.toNat_lt)

theorem htonl_toNat (v : UInt32) : (htonl host v).toNat = toNetwork host 4 v.toNat :=
  UInt32.toNat_ofNat_of_lt' (toNetwork_lt host v.toNat_lt)

/-- reading the struct back gives its fields one by one -/
theorem YamuxFrame.ofBytes_append (version type : UInt8) {flags streamid length : List UInt8}
    (hf : flags.length = 2) (hs : streamid.length = 4) (hl : length.length = 4)
    (payload : List UInt8) :
    YamuxFrame.ofBytes host ([version, type] ++ flags ++ streamid ++ length ++ payload) =
      { version := version
        type := type
        flags := UInt16.ofNat (load host flags)
        streamid := UInt32.ofNat (load host streamid)
        length := UInt32.ofNat (load host length) } := by
  have hflags : (([version, type] ++ flags ++ streamid ++ length ++ payload).drop 2).take 2 =
      flags := by
    have hd : ([version, type] ++ flags ++ streamid ++ length ++ payload).drop 2 =
        flags ++ (streamid ++ length ++ payload) := by
      simp
    rw [hd, List.take_append_of_le_length (by omega), List.take_of_length_le (by omega)]
  have hstreamid : (([version, type] ++ flags ++ streamid ++ length ++ payload).drop 4).take 4 =
      streamid := by
    have hd : ([version, type] ++ flags ++ streamid ++ length ++ payload).drop 4 =
        streamid ++ (length ++ payload) := by
      rw [List.append_assoc, List.append_assoc]
      exact List.drop_left' (by rw [List.length_append, hf]; rfl)
    rw [hd, List.take_append_of_le_length (by omega), List.take_of_length_le (by omega)]
  have hlength : (([version, type] ++ flags ++ streamid ++ length ++ payload).drop 8).take 4 =
      length := by
    have hd : ([version, type] ++ flags ++ streamid ++ length ++ payload).drop 8 =
        length ++ payload := by
      rw [List.append_assoc]
      exact List.drop_left' (by rw [List.length_append, List.length_append, hf, hs]; rfl)
    rw [hd, List.take_append_of_le_length (by omega), List.take_of_length_le (by omega)]
  unfold YamuxFrame.ofBytes
  rw [hflags, hstreamid, hlength]
  rfl

/-! ## what the receiver decodes -/

theorem toNetwork_uint16 (receiver : ByteOrder) (v : UInt16) :
    htons receiver (UInt16.ofNat (load receiver (store host 2 v.toNat))) = htons host v := by
  apply UInt16.toNat_inj.1
  have hlt : load receiver (store host 2 v.toNat) < 2 ^ 16 := by
    have h := load_lt receiver (store host 2 v.toNat)
    rwa [length_store] at h
  rw [htons_toNat, htons_toNat, UInt16.toNat_ofNat_of_lt' hlt,
    toNetwork_load_store host receiver v.toNat_lt]

theorem toNetwork_uint32 (receiver : ByteOrder) (v : UInt32) :
    htonl receiver (UInt32.ofNat (load receiver (store host 4 v.toNat))) = htonl host v := by
  apply UInt32.toNat_inj.1
  have hlt : load receiver (store host 4 v.toNat) < 2 ^ 32 := by
    have h := load_lt receiver (store host 4 v.toNat)
    rwa [length_store] at h
  rw [htonl_toNat, htonl_toNat, UInt32.toNat_ofNat_of_lt' hlt,
    toNetwork_load_store host receiver v.toNat_lt]

@[simp] theorem htons_htons (v : UInt16) : htons host (htons host v) = v := by
  apply UInt16.toNat_inj.1
  rw [htons_toNat, htons_toNat, toNetwork_toNetwork host v.toNat_lt]

@[simp] theorem htonl_htonl (v : UInt32) : htonl host (htonl host v) = v := by
  apply UInt32.toNat_inj.1
  rw [htonl_toNat, htonl_toNat, toNetwork_toNetwork host v.toNat_lt]

/-- **a frame that is not encoded is received as encoding would have left it at its sender** -/
theorem receiveFrame_raw (receiver : ByteOrder) (frame : YamuxFrame) (payload : List UInt8) :
    receiveFrame receiver (frame.bytes host ++ payload) = encodeFrame host frame := by
  unfold receiveFrame YamuxFrame.bytes
  rw [YamuxFrame.ofBytes_append receiver _ _ (length_store host) (length_store host)
    (length_store host)]
  unfold decodeFrame encodeFrame
  simp only [toNetwork_uint16, toNetwork_uint32]

/-- **an encoded frame is received as it was set** -/
theorem receiveFrame_encodeFrame (receiver : ByteOrder) (frame : YamuxFrame)
    (payload : List UInt8) :
    receiveFrame receiver ((encodeFrame host frame).bytes host ++ payload) = frame := by
  rw [receiveFrame_raw]
  unfold encodeFrame
  simp only [htons_htons, htonl_htonl]

end

/-- a big-endian host has nothing to convert -/
@[simp] theorem encodeFrame_big (frame : YamuxFrame) : encodeFrame .big frame = frame := by
  unfold encodeFrame htons htonl toNetwork
  simp only [UInt16.ofNat_toNat, UInt32.ofNat_toNat]

end Libp2p
