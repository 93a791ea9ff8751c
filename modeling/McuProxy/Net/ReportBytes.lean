/-
# What a report says about memory

`handleTimeout` builds its report in an array that nobody has initialised and sends the
first 80 bytes of it. All of them are written but for the field with the name: it has a
fixed length of sixteen bytes, and the printed address of the host, with a mark behind it
and a zero, fills it only if the address is long. Behind a shorter one the report carries
what was on the stack.
-/

import McuProxy.Net.Rtcp

namespace McuProxy.Net.RTPTransport

/-- The report does not depend on what was in the array. -/
def LeaksNothing (transport : RTPTransport) (now : UInt64) : Prop :=
  ∀ first second : Fin 88 → UInt8,
    (transport.handleTimeout first now).2 = (transport.handleTimeout second now).2

/-- A text of sixteen bytes or more covers the field. -/
theorem nameField_of_long {transport : RTPTransport}
    (hlong : 16 ≤ transport.printedName.length) (_buffer : Fin 88 → UInt8) :
    transport.nameField _buffer = transport.printedName.take 16 ++ [0, 0] := by
  rw [nameField, List.take_append_of_le_length hlong]

/-- Behind a shorter one the field shows a byte of the array. -/
theorem nameField_of_short {transport : RTPTransport}
    (hshort : transport.printedName.length < 16) (_buffer : Fin 88 → UInt8) :
    (transport.nameField _buffer)[transport.printedName.length]? =
      (List.ofFn _buffer)[62 + transport.printedName.length]? := by
  have hfield : transport.printedName.length < ((transport.printedName ++
      ((List.ofFn _buffer).drop 62).drop transport.printedName.length).take 16).length := by
    simp only [List.length_take, List.length_append, List.length_drop, List.length_ofFn]
    omega
  rw [nameField, List.getElem?_append_left hfield, List.getElem?_take_of_lt hshort,
    List.getElem?_append_right le_rfl, Nat.sub_self, List.drop_drop, List.getElem?_drop,
    Nat.add_zero]

/-- A report leaks nothing exactly when the printed address has at least fourteen
characters. -/
theorem leaksNothing_iff (transport : RTPTransport) (now : UInt64) :
    transport.LeaksNothing now ↔ 14 ≤ (inetNtoa transport.mHostAddr).length := by
  have htext := transport.length_printedName
  constructor
  · intro hsame
    by_contra hshort
    have hreport := hsame (fun _ => 0) (fun _ => 1)
    rw [handleTimeout_bytes, handleTimeout_bytes] at hreport
    have hfield := List.append_cancel_left (List.append_cancel_left hreport)
    have hbyte := congrArg (fun field => field[transport.printedName.length]?) hfield
    simp only [nameField_of_short (show transport.printedName.length < 16 by omega)] at hbyte
    rw [List.getElem?_ofFn, List.getElem?_ofFn] at hbyte
    simp [show 62 + transport.printedName.length < 88 by omega] at hbyte
  · intro hlong first second
    have hcovers : 16 ≤ transport.printedName.length := by omega
    rw [handleTimeout_bytes, handleTimeout_bytes, nameField_of_long hcovers,
      nameField_of_long hcovers]

/-- The report of the host 10.0.0.1 shows six bytes of the stack. -/
theorem short_address_leaks :
    ¬ LeaksNothing ⟨true, 0x0A000001, ⟨0, 0, 0, 0, 0, 0, 0, 0, 0⟩, 0, 0, 0, 0, 0, 0, 0, []⟩ 0 := by
  intro hsame
  exact absurd (hsame (fun _ => 0) (fun _ => 1)) (by decide +kernel)

end McuProxy.Net.RTPTransport
