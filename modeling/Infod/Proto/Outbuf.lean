import Infod.Proto.TextRoundTrip

/-!
# The output buffer

What `proto_outbuf` and `outbuf_putc` make of the bytes put out. `sizeof sizeof outbuf`
in `proto_outbuf` is the size of a `size_t`, so that it takes nearly all its data for a
small write; what fits into the buffer altogether is handled, in one flush or two.
-/

namespace Infod

section Outbuf

variable {α : Type} (up : Upcalls α)

theorem Outbuf.store_ok {out : Outbuf α} {data : List UInt8}
    (fits : out.bytes.length + data.length ≤ outbufSize) :
    out.store data = .ok { out with bytes := out.bytes ++ data } := if_neg (Nat.not_lt.mpr fits)

theorem outbufFlush_empties (out : Outbuf α) : ∃ ret app, outbufFlush up out = (ret, ⟨app, []⟩) := by
  rw [outbufFlush]
  split
  next empty =>
    obtain ⟨app, bytes⟩ := out
    cases empty
    exact ⟨0, app, rfl⟩
  next => exact ⟨_, _, rfl⟩

/-- One of the calls that put bytes out. -/
def runPut (put : Put) (out : Outbuf α) : Except ProtoFault (Int × Outbuf α) :=
  match put with
  | .putc ch => outbufPutc up out ch
  | .outbuf data => protoOutbuf up out data

theorem runPuts_cons (put : Put) (puts : List Put) (out : Outbuf α) :
    runPuts up (put :: puts) out = (runPut up put out >>= fun (ret, out) =>
      if ret = -1 then .ok (-1, out) else runPuts up puts out) := by
  cases put <;> rfl

theorem runPut_ok {put : Put} {out : Outbuf α} (fits : out.bytes.length + put.bytes.length ≤ outbufSize) :
    ∃ ret out', runPut up put out = .ok (ret, out') ∧
      out'.bytes.length ≤ out.bytes.length + put.bytes.length := by
  cases put with
  | putc ch =>
    rw [Put.bytes] at fits ⊢
    rw [runPut, outbufPutc, Outbuf.store_ok fits, Except.ok_bind]
    obtain ⟨ret, app, flushed⟩ := outbufFlush_empties up { out with bytes := out.bytes ++ [ch] }
    split
    next => exact ⟨ret, _, congrArg _ flushed, Nat.zero_le _⟩
    next => exact ⟨0, _, rfl, by rw [List.length_append]⟩
  | outbuf data =>
    rw [Put.bytes] at fits ⊢
    rw [runPut, protoOutbuf]
    split
    next =>
      rw [Outbuf.store_ok fits, Except.ok_bind]
      exact ⟨0, _, rfl, by rw [List.length_append]⟩
    next =>
      split
      next => exact ⟨_, _, rfl, Nat.zero_le _⟩
      next =>
        rw [Outbuf.store_ok (by rw [List.length_take]; omega), Except.ok_bind]
        obtain ⟨ret, app, flushed⟩ := outbufFlush_empties up { out with
          bytes := out.bytes ++ data.take ((2 ^ 64 + sizeofSizeT - out.bytes.length) % 2 ^ 32) }
        rw [flushed]
        dsimp only
        split
        next => exact ⟨-1, _, rfl, Nat.zero_le _⟩
        next =>
          rw [Outbuf.store_ok (by rw [List.length_drop]; simp only [List.length_nil]; omega), Except.ok_bind]
          refine ⟨0, _, rfl, ?_⟩
          rw [List.nil_append, List.length_drop]
          omega

/-- Bytes that fit into the buffer are put out without a fault. -/
theorem runPuts_ok (puts : List Put) (out : Outbuf α)
    (fits : out.bytes.length + (puts.flatMap Put.bytes).length ≤ outbufSize) :
    ∃ ret out', runPuts up puts out = .ok (ret, out') := by
  induction puts generalizing out with
  | nil => exact ⟨0, out, rfl⟩
  | cons put puts ih =>
    rw [List.flatMap_cons, List.length_append] at fits
    obtain ⟨ret, out', ran, grown⟩ := runPut_ok up (show out.bytes.length + put.bytes.length ≤ outbufSize by omega)
    rw [runPuts_cons, ran, Except.ok_bind]
    dsimp only
    split
    next => exact ⟨-1, out', rfl⟩
    next => exact ih out' (by omega)

/-! ### Error replies -/

theorem quoted_length_le (bytes : List UInt8) : (quoted bytes).length ≤ 4 * bytes.length := by
  induction bytes with
  | nil => exact Nat.le_refl 0
  | cons ch bytes ih =>
    have one : (quoteChar ch).bytes.length ≤ 4 := by
      rw [quoteChar]
      split
      next => exact Nat.le_refl 4
      next => exact Nat.le_add_left 1 3
    rw [show quoted (ch :: bytes) = (quoteChar ch).bytes ++ quoted bytes from rfl, List.length_append,
      List.length_cons]
    omega

/-- The line of an ERROR message. -/
theorem outputText_error (code : ErrorCode) (text : List UInt8) (short : text.length ≤ 0xffff) :
    ∃ puts, outputText msgError (ascii "%c%s") [.int code.toByte.toNat, .ptr (text ++ [0])] = .ok puts ∧
      (puts.flatMap Put.bytes).length ≤ 4 * text.length + 14 := by
  let entry : CmdEntry := ⟨ascii "ERROR", msgError, [.i, .t]⟩
  have found : (cmdtab.find? fun entry => entry.id == msgError) = some entry := by decide
  have size : (cstr (text ++ [0])).length ≤ text.length := by
    have ends := congrArg List.length (cstr_split (show (0 : UInt8) ∈ text ++ [0] by simp))
    simp only [List.length_append, List.length_cons, List.length_nil] at ends
    omega
  let number := Field.int (lowByte code.toByte.toNat)
  let message := Field.text (cstr (text ++ [0]))
  have first : outputNext entry (ascii "%c%s") ⟨ascii "%c%s", entry.fmt, false,
      [.int code.toByte.toNat, .ptr (text ++ [0])], [.outbuf entry.word]⟩ =
      .ok (some ⟨ascii "%s", [.t], false, [.ptr (text ++ [0])], .outbuf entry.word :: number.puts⟩) := rfl
  have second : outputNext entry (ascii "%c%s") ⟨ascii "%s", [.t], false, [.ptr (text ++ [0])],
      .outbuf entry.word :: number.puts⟩ =
      .ok (some ⟨[], [], false, [], .outbuf entry.word :: number.puts ++ message.puts⟩) := by
    have measured : strlen (text ++ [0]) = .ok (cstr (text ++ [0])).length := if_pos (by simp)
    have whole : (((cstr (text ++ [0])).length : Int) % 2 ^ 32).toNat = (cstr (text ++ [0])).length := by
      omega
    have written : outputTextString (.outbuf entry.word :: number.puts ++ [.putc (chr ' ')]) (text ++ [0])
        (cstr (text ++ [0])).length = .ok (.outbuf entry.word :: number.puts ++ message.puts) := by
      rw [outputTextString, whole, if_neg (by omega), if_neg (by rw [List.length_append]; omega), take_cstr]
      simp [message, Field.puts]
    change (strlen (text ++ [0]) >>= _) = _
    rw [measured, Except.ok_bind]
    exact Except.bind_ok written rfl
  refine ⟨.outbuf entry.word :: number.puts ++ message.puts ++ [.outbuf crlf], ?_, ?_⟩
  · rw [outputText, found]
    exact Except.bind_ok (Except.bind_ok first (Except.bind_ok second rfl)) rfl
  · have digits : ∀ code : ErrorCode, (decimal (lowByte code.toByte.toNat).toNat).length ≤ 3 := by
      intro code
      cases code <;> decide
    have := quoted_length_le (cstr (text ++ [0]))
    have := digits code
    simp only [List.flatMap_append, List.flatMap_cons, Field.puts_bytes, number, message, Field.render,
      Put.bytes, List.length_append, List.length_cons, List.flatMap_nil, List.length_nil]
    change 5 + _ + _ + (2 + 0) ≤ _
    omega

/-- An error with a short text can be sent. -/
theorem protoOutputError_ok (app : α) (code : ErrorCode) {text : List UInt8} (short : text.length ≤ 1000) :
    ∃ answered, protoOutputError up .text app code text = .ok answered := by
  obtain ⟨puts, accepted, size⟩ := outputText_error code text (by omega)
  obtain ⟨ret, out, ran⟩ := runPuts_ok up puts ⟨app, []⟩
    (by rw [outbufSize, List.length_nil]; omega)
  have sent : ∃ answered, protoOutput up .text app msgError (ascii "%c%s")
      [.int code.toByte.toNat, .ptr (text.take 16383 ++ [0])] = .ok answered := by
    rw [List.take_of_length_le (by omega), protoOutput, sendText, accepted]
    dsimp only
    rw [ran, Except.ok_bind]
    dsimp only
    split
    next => exact ⟨_, rfl⟩
    next => exact ⟨_, rfl⟩
  obtain ⟨⟨ret, app'⟩, sent⟩ := sent
  rw [protoOutputError, sent, Except.ok_bind]
  dsimp only
  split
  next => exact ⟨_, rfl⟩
  next =>
    split
    next => exact ⟨_, rfl⟩
    next => exact ⟨_, rfl⟩

end Outbuf

end Infod
