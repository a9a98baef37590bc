import Libipfs.Protobuf.Safety
import Libipfs.Merkledag.Node
import Libipfs.Unixfs.UnixFs
import Libipfs.Bitswap.Message
import Libipfs.Libp2p.Record

/-!
# The decoders of the repository as field loops

For each protobuf decoder: when it reads only what it is given, and when it comes to an end.
The input of a decoder comes from the network or from a file.

* `decoders_readSafely_iff`   the ten decoders read safely exactly on the inputs in which no tag,
                              varint or size that they get to is malformed: none of them checks;
* `loops_advance_iff`         the loops with a string in them move forward at every pass exactly
                              when no string takes the position back;
* `hashtableNodeProtobufDecode_ne_outOfBounds` and the like   what safe reading is for.
-/

set_option linter.unusedVariables false

namespace Ipfs
open CSem Libp2p

/-! ## safe reading

`…ReadsSafely` says that on this input no primitive called by the decoder, or by a decoder it
calls, reads past the end, and that what is malformed makes the decoder that meets it return 0.
`…Whole` says that nothing is malformed as far as the decoder gets, but for sizes that `malloc`
refuses. -/

section
variable (buf : List UInt8)

def linkReadsSafely : Prop := SafeOn linkFields {} (fun _ _ => True) buf
def linkWhole : Prop := WholeOn linkFields {} (fun _ _ => True) buf

/-- field 2 of a node is a link -/
def nodeReadsSafely : Prop := SafeOn nodeFields {} (fun no d => no = 2 → linkReadsSafely d) buf
def nodeWhole : Prop := WholeOn nodeFields {} (fun no d => no = 2 → linkWhole d) buf

def unixfsReadsSafely : Prop := SafeOn unixfsFields {} (fun _ _ => True) buf
def unixfsWhole : Prop := WholeOn unixfsFields {} (fun _ _ => True) buf

def cidReadsSafely : Prop := SafeOn cidFields {} (fun _ _ => True) buf
def cidWhole : Prop := WholeOn cidFields {} (fun _ _ => True) buf

/-- field 2 of a block is a CID -/
def blockReadsSafely : Prop := SafeOn blockFields blockNew (fun no d => no = 2 → cidReadsSafely d) buf
def blockWhole : Prop := WholeOn blockFields blockNew (fun no d => no = 2 → cidWhole d) buf

def wantlistEntryReadsSafely : Prop := SafeOn wantlistEntryFields {} (fun _ _ => True) buf
def wantlistEntryWhole : Prop := WholeOn wantlistEntryFields {} (fun _ _ => True) buf

/-- field 1 of a want list is an entry -/
def wantlistReadsSafely : Prop :=
  SafeOn wantlistFields {} (fun no d => no = 1 → wantlistEntryReadsSafely d) buf
def wantlistWhole : Prop :=
  WholeOn wantlistFields {} (fun no d => no = 1 → wantlistEntryWhole d) buf

/-- fields 2 and 3 of a bitswap message are a block and a want list -/
def bitswapMessageReadsSafely : Prop :=
  SafeOn bitswapMessageFields {}
    (fun no d => (no = 2 → blockReadsSafely d) ∧ (no = 3 → wantlistReadsSafely d)) buf
def bitswapMessageWhole : Prop :=
  WholeOn bitswapMessageFields {}
    (fun no d => (no = 2 → blockWhole d) ∧ (no = 3 → wantlistWhole d)) buf

def recordReadsSafely : Prop := SafeOn recordFields {} (fun _ _ => True) buf
def recordWhole : Prop := WholeOn recordFields {} (fun _ _ => True) buf

def peerReadsSafely : Prop := SafeOn peerFields {} (fun _ _ => True) buf
def peerWhole : Prop := WholeOn peerFields {} (fun _ _ => True) buf

/-- field 3 of a Kademlia message is a record, fields 8 and 9 are peers -/
def kademliaMessageReadsSafely : Prop :=
  SafeOn messageFields {}
    (fun no d => (no = 3 → recordReadsSafely d) ∧ (no = 8 ∨ no = 9 → peerReadsSafely d)) buf
def kademliaMessageWhole : Prop :=
  WholeOn messageFields {}
    (fun no d => (no = 3 → recordWhole d) ∧ (no = 8 ∨ no = 9 → peerWhole d)) buf

end

section
variable {buf : List UInt8}

private theorem leaf (no : Int) (d : List UInt8) : True ↔ True := Iff.rfl

theorem linkReadsSafely_iff : linkReadsSafely buf ↔ linkWhole buf := safeOn_iff_wholeOn leaf

theorem nodeReadsSafely_iff : nodeReadsSafely buf ↔ nodeWhole buf :=
  safeOn_iff_wholeOn fun _ _ => imp_congr_right fun _ => linkReadsSafely_iff

theorem unixfsReadsSafely_iff : unixfsReadsSafely buf ↔ unixfsWhole buf := safeOn_iff_wholeOn leaf

theorem cidReadsSafely_iff : cidReadsSafely buf ↔ cidWhole buf := safeOn_iff_wholeOn leaf

theorem blockReadsSafely_iff : blockReadsSafely buf ↔ blockWhole buf :=
  safeOn_iff_wholeOn fun _ _ => imp_congr_right fun _ => cidReadsSafely_iff

theorem wantlistEntryReadsSafely_iff : wantlistEntryReadsSafely buf ↔ wantlistEntryWhole buf :=
  safeOn_iff_wholeOn leaf

theorem wantlistReadsSafely_iff : wantlistReadsSafely buf ↔ wantlistWhole buf :=
  safeOn_iff_wholeOn fun _ _ => imp_congr_right fun _ => wantlistEntryReadsSafely_iff

theorem bitswapMessageReadsSafely_iff : bitswapMessageReadsSafely buf ↔ bitswapMessageWhole buf :=
  safeOn_iff_wholeOn fun _ _ => and_congr (imp_congr_right fun _ => blockReadsSafely_iff)
    (imp_congr_right fun _ => wantlistReadsSafely_iff)

theorem recordReadsSafely_iff : recordReadsSafely buf ↔ recordWhole buf := safeOn_iff_wholeOn leaf

theorem peerReadsSafely_iff : peerReadsSafely buf ↔ peerWhole buf := safeOn_iff_wholeOn leaf

theorem kademliaMessageReadsSafely_iff : kademliaMessageReadsSafely buf ↔ kademliaMessageWhole buf :=
  safeOn_iff_wholeOn fun _ _ => and_congr (imp_congr_right fun _ => recordReadsSafely_iff)
    (imp_congr_right fun _ => peerReadsSafely_iff)

end

/-! ### what is done with a field

No field ends in a fault but those of a decoder that is called for it, and a key that is not
there. -/

section
variable {e : Fault} {nested : Int → List UInt8 → Prop}

theorem linkFields_quiet (no : Int) : (linkFields no).Quiet e (nested no) := by
  unfold linkFields
  split
  · intro d link _
    show (if d.length < 2 then _ else _) ≠ _
    split <;> exact ok_ne_error
  · exact fun _ _ => ok_ne_error
  · exact fun _ _ => ok_ne_error
  · trivial

theorem nodeFields_quiet (hlink : ∀ d, nested 2 d → nodeLinkProtobufDecode d ≠ .error e)
    (no : Int) : (nodeFields no).Quiet e (nested no) := by
  unfold nodeFields
  split
  · exact fun _ _ _ => ok_ne_error
  · intro d node hd
    refine bind_ne_error (hlink d hd) fun link _ => ?_
    cases link <;> exact ok_ne_error
  · trivial

theorem unixfsFields_quiet (no : Int) : (unixfsFields no).Quiet e (nested no) := by
  unfold unixfsFields
  split
  · exact fun _ _ => ok_ne_error
  · exact fun _ _ _ => ok_ne_error
  · exact fun _ _ => ok_ne_error
  · exact fun _ _ => ok_ne_error
  · trivial

theorem cidFields_quiet (no : Int) : (cidFields no).Quiet e (nested no) := by
  unfold cidFields
  split
  · exact fun _ _ => ok_ne_error
  · exact fun _ _ => ok_ne_error
  · exact fun _ _ _ => ok_ne_error
  · trivial

theorem blockFields_quiet (hcid : ∀ d, nested 2 d → cidProtobufDecode d ≠ .error e) (no : Int) :
    (blockFields no).Quiet e (nested no) := by
  unfold blockFields
  split
  · exact fun _ _ _ => ok_ne_error
  · intro d block hd
    refine bind_ne_error (hcid d hd) fun cid _ => ?_
    cases cid <;> exact ok_ne_error
  · trivial

theorem wantlistEntryFields_quiet (no : Int) : (wantlistEntryFields no).Quiet e (nested no) := by
  unfold wantlistEntryFields
  split
  · exact fun _ _ _ => ok_ne_error
  · exact fun _ _ => ok_ne_error
  · exact fun _ _ => ok_ne_error
  · trivial

theorem wantlistFields_quiet (hentry : ∀ d, nested 1 d → wantlistEntryProtobufDecode d ≠ .error e)
    (no : Int) : (wantlistFields no).Quiet e (nested no) := by
  unfold wantlistFields
  split
  · intro d wantlist hd
    refine bind_ne_error (hentry d hd) fun entry _ => ?_
    cases entry <;> exact ok_ne_error
  · exact fun _ _ => ok_ne_error
  · trivial

theorem bitswapMessageFields_quiet
    (hblock : ∀ d, nested 2 d → blocksBlockProtobufDecode d ≠ .error e)
    (hwantlist : ∀ d, nested 3 d → wantlistProtobufDecode d ≠ .error e) (no : Int) :
    (bitswapMessageFields no).Quiet e (nested no) := by
  unfold bitswapMessageFields
  split
  · exact fun _ _ _ => ok_ne_error
  · intro d message hd
    refine bind_ne_error (hblock d hd) fun block _ => ?_
    cases block <;> exact ok_ne_error
  · intro d message hd
    refine bind_ne_error (hwantlist d hd) fun wantlist _ => ?_
    cases wantlist <;> exact ok_ne_error
  · trivial

/-- the size of a key is that of a string, which has to be there -/
theorem recordFields_quiet (he : e ≠ .null) (no : Int) : (recordFields no).Quiet e (nested no) := by
  unfold recordFields
  split
  · intro text record
    have hkey : ∀ key : Option (List UInt8), deref key ≠ .error e := by
      intro key h
      cases key with
      | none => exact he (Except.error.inj h).symm
      | some key => cases h
    exact bind_ne_error (hkey _) fun bytes _ => ok_ne_error
  · exact fun _ _ _ => ok_ne_error
  · exact fun _ _ _ => ok_ne_error
  · exact fun _ _ _ => ok_ne_error
  · exact fun _ _ _ => ok_ne_error
  · trivial

theorem peerFields_quiet (no : Int) : (peerFields no).Quiet e (nested no) := by
  unfold peerFields
  split
  · exact fun _ _ _ => ok_ne_error
  · exact fun _ _ _ => ok_ne_error
  · exact fun _ _ => ok_ne_error
  · trivial

theorem messageFields_quiet (hrecord : ∀ d, nested 3 d → recordProtobufDecode d ≠ .error e)
    (hpeer : ∀ no d, no = 8 ∨ no = 9 → nested no d → peerProtobufDecode d ≠ .error e) (no : Int) :
    (messageFields no).Quiet e (nested no) := by
  unfold messageFields
  split
  · trivial
  split
  · exact fun _ _ => ok_ne_error
  · exact fun _ _ _ => ok_ne_error
  · intro d message hd
    refine bind_ne_error (hrecord d hd) fun record _ => ?_
    cases record <;> exact ok_ne_error
  · intro d message hd
    refine bind_ne_error (hpeer 8 d (.inl rfl) hd) fun peer _ => ?_
    cases peer <;> exact ok_ne_error
  · intro d message hd
    refine bind_ne_error (hpeer 9 d (.inr rfl) hd) fun peer _ => ?_
    cases peer <;> exact ok_ne_error
  · exact fun _ _ => ok_ne_error
  · trivial

end

/-! ### what safe reading is for -/

section
variable {buf : List UInt8}

theorem nodeLinkProtobufDecode_ne_outOfBounds (h : linkReadsSafely buf) :
    nodeLinkProtobufDecode buf ≠ .error .outOfBounds :=
  SafeOn.ne_outOfBounds h linkFields_quiet

theorem hashtableNodeProtobufDecode_ne_outOfBounds (h : nodeReadsSafely buf) :
    hashtableNodeProtobufDecode buf ≠ .error .outOfBounds := by
  unfold hashtableNodeProtobufDecode
  split
  · exact ok_ne_error
  · exact SafeOn.ne_outOfBounds h
      (nodeFields_quiet fun d hd => nodeLinkProtobufDecode_ne_outOfBounds (hd rfl))

theorem unixfsProtobufDecode_ne_outOfBounds (h : unixfsReadsSafely buf) :
    unixfsProtobufDecode buf ≠ .error .outOfBounds := by
  unfold unixfsProtobufDecode
  split
  · exact ok_ne_error
  · exact SafeOn.ne_outOfBounds h unixfsFields_quiet

theorem cidProtobufDecode_ne_outOfBounds (h : cidReadsSafely buf) :
    cidProtobufDecode buf ≠ .error .outOfBounds := by
  unfold cidProtobufDecode
  split
  · exact ok_ne_error
  · refine bind_ne_error (SafeOn.ne_outOfBounds h cidFields_quiet) fun cid _ => ?_
    cases cid with
    | none => exact ok_ne_error
    | some cid =>
      dsimp only
      split <;> simp

theorem blocksBlockProtobufDecode_ne_outOfBounds (h : blockReadsSafely buf) :
    blocksBlockProtobufDecode buf ≠ .error .outOfBounds :=
  SafeOn.ne_outOfBounds h
    (blockFields_quiet fun d hd => cidProtobufDecode_ne_outOfBounds (hd rfl))

theorem wantlistEntryProtobufDecode_ne_outOfBounds (h : wantlistEntryReadsSafely buf) :
    wantlistEntryProtobufDecode buf ≠ .error .outOfBounds := by
  unfold wantlistEntryProtobufDecode
  split
  · exact ok_ne_error
  · refine bind_ne_error (SafeOn.ne_outOfBounds h wantlistEntryFields_quiet) fun entry _ => ?_
    cases entry <;> exact ok_ne_error

theorem wantlistProtobufDecode_ne_outOfBounds (h : wantlistReadsSafely buf) :
    wantlistProtobufDecode buf ≠ .error .outOfBounds := by
  unfold wantlistProtobufDecode
  split
  · exact ok_ne_error
  · have hfields : decodeFields wantlistFields buf {} ≠ .error .outOfBounds :=
      SafeOn.ne_outOfBounds h
        (wantlistFields_quiet fun d hd => wantlistEntryProtobufDecode_ne_outOfBounds (hd rfl))
    refine bind_ne_error hfields fun wantlist _ => ?_
    cases wantlist <;> exact ok_ne_error

theorem bitswapMessageProtobufDecode_ne_outOfBounds (h : bitswapMessageReadsSafely buf) :
    bitswapMessageProtobufDecode buf ≠ .error .outOfBounds := by
  unfold bitswapMessageProtobufDecode
  split
  · exact ok_ne_error
  · have hfields : decodeFields bitswapMessageFields buf {} ≠ .error .outOfBounds :=
      SafeOn.ne_outOfBounds h
        (bitswapMessageFields_quiet
          (fun d hd => blocksBlockProtobufDecode_ne_outOfBounds (hd.1 rfl))
          fun d hd => wantlistProtobufDecode_ne_outOfBounds (hd.2 rfl))
    refine bind_ne_error hfields fun message _ => ?_
    cases message <;> exact ok_ne_error

theorem recordProtobufDecode_ne_outOfBounds (h : recordReadsSafely buf) :
    recordProtobufDecode buf ≠ .error .outOfBounds :=
  SafeOn.ne_outOfBounds h (recordFields_quiet (by decide))

theorem peerProtobufDecode_ne_outOfBounds (h : peerReadsSafely buf) :
    peerProtobufDecode buf ≠ .error .outOfBounds :=
  SafeOn.ne_outOfBounds h peerFields_quiet

theorem messageProtobufDecode_ne_outOfBounds (h : kademliaMessageReadsSafely buf) :
    messageProtobufDecode buf ≠ .error .outOfBounds :=
  SafeOn.ne_outOfBounds h
    (messageFields_quiet (fun d hd => recordProtobufDecode_ne_outOfBounds (hd.1 rfl))
      fun no d hno hd => peerProtobufDecode_ne_outOfBounds (hd.2 hno))

/-- **the decoders check nothing**: they read safely, and do not end with a read past the end,
exactly on inputs that are whole as far as they get -/
theorem decoders_readSafely_iff (buf : List UInt8) :
    (linkReadsSafely buf ∧ nodeLinkProtobufDecode buf ≠ .error .outOfBounds ↔ linkWhole buf) ∧
    (nodeReadsSafely buf ∧ hashtableNodeProtobufDecode buf ≠ .error .outOfBounds ↔
      nodeWhole buf) ∧
    (unixfsReadsSafely buf ∧ unixfsProtobufDecode buf ≠ .error .outOfBounds ↔ unixfsWhole buf) ∧
    (blockReadsSafely buf ∧ blocksBlockProtobufDecode buf ≠ .error .outOfBounds ↔
      blockWhole buf) ∧
    (cidReadsSafely buf ∧ cidProtobufDecode buf ≠ .error .outOfBounds ↔ cidWhole buf) ∧
    (bitswapMessageReadsSafely buf ∧ bitswapMessageProtobufDecode buf ≠ .error .outOfBounds ↔
      bitswapMessageWhole buf) ∧
    (recordReadsSafely buf ∧ recordProtobufDecode buf ≠ .error .outOfBounds ↔ recordWhole buf) ∧
    (kademliaMessageReadsSafely buf ∧ messageProtobufDecode buf ≠ .error .outOfBounds ↔
      kademliaMessageWhole buf) ∧
    (peerReadsSafely buf ∧ peerProtobufDecode buf ≠ .error .outOfBounds ↔ peerWhole buf) := by
  exact ⟨(and_iff_left_of_imp nodeLinkProtobufDecode_ne_outOfBounds).trans linkReadsSafely_iff,
    (and_iff_left_of_imp hashtableNodeProtobufDecode_ne_outOfBounds).trans nodeReadsSafely_iff,
    (and_iff_left_of_imp unixfsProtobufDecode_ne_outOfBounds).trans unixfsReadsSafely_iff,
    (and_iff_left_of_imp blocksBlockProtobufDecode_ne_outOfBounds).trans blockReadsSafely_iff,
    (and_iff_left_of_imp cidProtobufDecode_ne_outOfBounds).trans cidReadsSafely_iff,
    (and_iff_left_of_imp bitswapMessageProtobufDecode_ne_outOfBounds).trans
      bitswapMessageReadsSafely_iff,
    (and_iff_left_of_imp recordProtobufDecode_ne_outOfBounds).trans recordReadsSafely_iff,
    (and_iff_left_of_imp messageProtobufDecode_ne_outOfBounds).trans kademliaMessageReadsSafely_iff,
    (and_iff_left_of_imp peerProtobufDecode_ne_outOfBounds).trans peerReadsSafely_iff⟩

/-- a node with a data field of five bytes, of which none is there -/
theorem nodeReadsSafely_truncated :
    hashtableNodeProtobufDecode [0x0a, 0x05] = .error .outOfBounds ∧
      ¬ nodeReadsSafely [0x0a, 0x05] := by
  have h : hashtableNodeProtobufDecode [0x0a, 0x05] = .error .outOfBounds := by decide +kernel
  exact ⟨h, fun hs => hashtableNodeProtobufDecode_ne_outOfBounds hs h⟩

end

/-! ## coming to an end -/

section
variable (buf : List UInt8)

def linkAdvances : Prop := AdvancesOn linkFields {} (fun _ _ => True) buf
def linkNeverBack : Prop := NeverBackOn linkFields {} (fun _ _ => True) buf

def nodeAdvances : Prop := AdvancesOn nodeFields {} (fun no d => no = 2 → linkAdvances d) buf
def nodeNeverBack : Prop := NeverBackOn nodeFields {} (fun no d => no = 2 → linkNeverBack d) buf

def recordAdvances : Prop := AdvancesOn recordFields {} (fun _ _ => True) buf
def recordNeverBack : Prop := NeverBackOn recordFields {} (fun _ _ => True) buf

end

section
variable {buf : List UInt8}

theorem nodeLinkProtobufDecode_ne_diverges (h : linkAdvances buf) :
    nodeLinkProtobufDecode buf ≠ .error .diverges :=
  AdvancesOn.ne_diverges h linkFields_quiet

theorem hashtableNodeProtobufDecode_ne_diverges (h : nodeAdvances buf) :
    hashtableNodeProtobufDecode buf ≠ .error .diverges := by
  unfold hashtableNodeProtobufDecode
  split
  · exact ok_ne_error
  · exact AdvancesOn.ne_diverges h
      (nodeFields_quiet fun d hd => nodeLinkProtobufDecode_ne_diverges (hd rfl))

theorem recordProtobufDecode_ne_diverges (h : recordAdvances buf) :
    recordProtobufDecode buf ≠ .error .diverges :=
  AdvancesOn.ne_diverges h (recordFields_quiet (by decide))

/-- **the loops with strings**: every pass ends the decoder or moves forward, and the decoder
comes to an end, exactly when no string takes the position back -/
theorem loops_advance_iff (buf : List UInt8) (hlen : buf.length ≤ ptrdiffMax) :
    (linkAdvances buf ∧ nodeLinkProtobufDecode buf ≠ .error .diverges ↔ linkNeverBack buf) ∧
    (nodeAdvances buf ∧ hashtableNodeProtobufDecode buf ≠ .error .diverges ↔
      nodeNeverBack buf) ∧
    (recordAdvances buf ∧ recordProtobufDecode buf ≠ .error .diverges ↔ recordNeverBack buf) := by
  have hlink (d : List UInt8) (hd : d.length ≤ ptrdiffMax) : linkAdvances d ↔ linkNeverBack d :=
    advancesOn_iff (fun _ _ _ => Iff.rfl) hd
  have hnode : nodeAdvances buf ↔ nodeNeverBack buf :=
    advancesOn_iff (fun no d hd => imp_congr_right fun _ => hlink d hd) hlen
  have hrecord : recordAdvances buf ↔ recordNeverBack buf :=
    advancesOn_iff (fun _ _ _ => Iff.rfl) hlen
  exact ⟨(and_iff_left_of_imp nodeLinkProtobufDecode_ne_diverges).trans (hlink buf hlen),
    (and_iff_left_of_imp hashtableNodeProtobufDecode_ne_diverges).trans hnode,
    (and_iff_left_of_imp recordProtobufDecode_ne_diverges).trans hrecord⟩

theorem loops_advance_iff_one_byte :
    ([0x08] : List UInt8).length ≤ ptrdiffMax ∧
      (linkAdvances [0x08] ∧ nodeLinkProtobufDecode [0x08] ≠ .error .diverges ↔
        linkNeverBack [0x08]) :=
  ⟨by decide, (loops_advance_iff [0x08] (by decide)).1⟩

/-- a name of `2 ^ 32 - 6` bytes: as an `int` its length is -6, the size of its own encoding -/
theorem linkAdvances_name_of_negative_length :
    nodeLinkProtobufDecode [0x12, 0xfa, 0xff, 0xff, 0xff, 0x0f] = .error .diverges ∧
      ¬ linkAdvances [0x12, 0xfa, 0xff, 0xff, 0xff, 0x0f] := by
  have h : nodeLinkProtobufDecode [0x12, 0xfa, 0xff, 0xff, 0xff, 0x0f] = .error .diverges := by
    decide +kernel
  exact ⟨h, fun ha => nodeLinkProtobufDecode_ne_diverges ha h⟩

end

end Ipfs
