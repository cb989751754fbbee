import Mathlib.Algebra.Order.Group.Nat
import Mathlib.Data.List.Basic
import Mathlib.Data.UInt

/-!
# The metric listener

A TCP connection is read into a buffer and taken from it line by line; the handler forwards the
lines in batches, when there are enough of them and when no more come for a while.
-/
namespace NumentaApps.Runtime

/-- The line feed. -/
def newline : UInt8 := 10

namespace LineReader

def recvBufSize : ℕ := 1024

/-- What a call of `recv_into` comes to, as long as the connection is open. -/
inductive Recv where
  | chunk (bytes : List UInt8) (nonempty : 0 < bytes.length) (fits : bytes.length ≤ recvBufSize)
  | timeout
  | interrupted

def Recv.bytes : Recv → List UInt8
  | .chunk bytes _ _ => bytes
  | .timeout => []
  | .interrupted => []

/-- All that the connection brings. -/
def stream (socket : List Recv) : List UInt8 := socket.flatMap Recv.bytes

/-- What the generator yields, none for a time-out; or it raises. -/
inductive Item where
  | line (bytes : List UInt8)
  | none
  | error

def Item.bytes : Item → Option (List UInt8)
  | .line bytes => some bytes
  | .none | .error => Option.none

/-- What is left to do, for the reader to end. -/
def remaining (lineBuf : List UInt8) (socket : List Recv) : ℕ :=
  lineBuf.length + (stream socket).length + socket.length

/-- The items of the generator, from what the line buffer holds. The `socket.error` of a call that is
interrupted is not an `OSError`, and is not caught. -/
def readlinesWithTimeout (lineBuf : List UInt8) (socket : List Recv) : List Item :=
  match heol : lineBuf.findIdx? (· = newline) with
  | some eolPos =>
    .line (lineBuf.take (eolPos + 1)) :: readlinesWithTimeout (lineBuf.drop (eolPos + 1)) socket
  | none =>
    match socket with
    | .timeout :: socket => .none :: readlinesWithTimeout lineBuf socket
    | .interrupted :: _ => [.error]
    | .chunk bytes _ _ :: socket => readlinesWithTimeout (lineBuf ++ bytes) socket
    | [] => if lineBuf = [] then [] else [.line lineBuf]
termination_by remaining lineBuf socket
decreasing_by
  · have hlength := (List.findIdx?_eq_some_iff_getElem.mp heol).1
    rw [remaining, remaining, List.length_drop]
    omega
  · simp only [remaining, stream, List.flatMap_cons, List.length_append, List.length_cons]
    omega
  · simp only [remaining, stream, List.flatMap_cons, List.length_append, List.length_cons,
      Recv.bytes]
    omega

end LineReader

/-! ## The handler -/

namespace TCPHandler

/-- The maximum number of data samples per batch. -/
def maxBatchSize : ℕ := 200

def isSpace (b : UInt8) : Bool := (9 ≤ b && b ≤ 13) || b = 32

def strip (line : List UInt8) : List UInt8 :=
  ((line.dropWhile isSpace).reverse.dropWhile isSpace).reverse

/-- After a byte: the ranges of the bytes that are still to come of its character. Surrogates are
decoded like other characters. -/
def decodeByte : List (UInt8 × UInt8) → UInt8 → Option (List (UInt8 × UInt8))
  | (low, high) :: ranges, b => if low ≤ b ∧ b ≤ high then some ranges else none
  | [], b =>
    if b ≤ 0x7f then some []
    else if 0xc2 ≤ b ∧ b ≤ 0xdf then some [(0x80, 0xbf)]
    else if b = 0xe0 then some [(0xa0, 0xbf), (0x80, 0xbf)]
    else if 0xe1 ≤ b ∧ b ≤ 0xef then some [(0x80, 0xbf), (0x80, 0xbf)]
    else if b = 0xf0 then some [(0x90, 0xbf), (0x80, 0xbf), (0x80, 0xbf)]
    else if 0xf1 ≤ b ∧ b ≤ 0xf3 then some [(0x80, 0xbf), (0x80, 0xbf), (0x80, 0xbf)]
    else if b = 0xf4 then some [(0x80, 0x8f), (0x80, 0xbf), (0x80, 0xbf)]
    else none

def isUtf8 (text : List UInt8) : Bool := text.foldlM decodeByte [] = some []

/-- `_forwardData`, with the batches that are forwarded after it. `json.dumps` decodes the lines of
the batch; where it raises, the handler ends. -/
def forwardData (batch : List (List UInt8)) (later : List (List (List UInt8))) :
    List (List (List UInt8)) :=
  if batch.all isUtf8 then batch :: later else []

/-- The batches that are forwarded of the lines, and at the breaks between them. -/
def forwardFrom : List (List UInt8) → List LineReader.Item → List (List (List UInt8))
  | batch, [] => if batch = [] then [] else forwardData batch []
  | _, .error :: _ => []
  | batch, .none :: items =>
    if batch ≠ [] ∨ maxBatchSize ≤ batch.length then forwardData batch (forwardFrom [] items)
    else forwardFrom batch items
  | batch, .line line :: items =>
    if maxBatchSize ≤ (batch ++ [strip line]).length then
      forwardData (batch ++ [strip line]) (forwardFrom [] items)
    else forwardFrom (batch ++ [strip line]) items

/-- The items come through `_readlines`, which only sets the time-outs of the socket. -/
def handle (socket : List LineReader.Recv) : List (List (List UInt8)) :=
  forwardFrom [] (LineReader.readlinesWithTimeout [] socket)

end TCPHandler

/-! ## Lines -/

/-- A text cut after each of its newlines. -/
def splitLines : List UInt8 → List (List UInt8)
  | [] => []
  | b :: bs =>
    if b = newline then [b] :: splitLines bs
    else
      match splitLines bs with
      | [] => [[b]]
      | line :: lines => (b :: line) :: lines

theorem splitLines_flatten (text : List UInt8) : (splitLines text).flatten = text := by
  induction text with
  | nil => rfl
  | cons b bs ih =>
    rw [splitLines]
    split
    · rw [List.flatten_cons, ih]
      rfl
    · split
      · rename_i hlines
        rw [hlines] at ih
        rw [← ih]
        rfl
      · rename_i line lines hlines
        rw [hlines] at ih
        rw [List.flatten_cons, List.cons_append, ← ih]
        rfl

theorem splitLines_cons_of_ne {b : UInt8} (hb : b ≠ newline) (bs : List UInt8) :
    splitLines (b :: bs) = match splitLines bs with
      | [] => [[b]]
      | line :: lines => (b :: line) :: lines := by
  rw [splitLines, if_neg hb]

theorem splitLines_line {line : List UInt8} (h : newline ∉ line) (rest : List UInt8) :
    splitLines (line ++ newline :: rest) = (line ++ [newline]) :: splitLines rest := by
  induction line with
  | nil => rw [List.nil_append, splitLines, if_pos rfl]; rfl
  | cons b line ih =>
    obtain ⟨hb, hline⟩ := not_or.mp (List.mem_cons.not.mp h)
    rw [List.cons_append, splitLines_cons_of_ne (Ne.symm hb), ih hline]
    rfl

theorem splitLines_unterminated {text : List UInt8} (h : newline ∉ text) (hne : text ≠ []) :
    splitLines text = [text] := by
  induction text with
  | nil => exact absurd rfl hne
  | cons b text ih =>
    obtain ⟨hb, htext⟩ := not_or.mp (List.mem_cons.not.mp h)
    rw [splitLines_cons_of_ne (Ne.symm hb)]
    cases text with
    | nil => rfl
    | cons c text => rw [ih htext (List.cons_ne_nil _ _)]

/-! ## The lines of a connection -/

namespace LineReader

theorem eol_some {lineBuf : List UInt8} {eolPos : ℕ}
    (h : lineBuf.findIdx? (· = newline) = some eolPos) :
    newline ∉ lineBuf.take eolPos ∧
      lineBuf.take (eolPos + 1) = lineBuf.take eolPos ++ [newline] ∧
      lineBuf = lineBuf.take eolPos ++ newline :: lineBuf.drop (eolPos + 1) := by
  obtain ⟨hlt, heol, hbefore⟩ := List.findIdx?_eq_some_iff_getElem.mp h
  have heq : lineBuf[eolPos] = newline := of_decide_eq_true heol
  refine ⟨?_, ?_, ?_⟩
  · intro hmem
    obtain ⟨i, hi, hnewline⟩ := List.mem_take_iff_getElem.mp hmem
    have hnot := hbefore i (Nat.lt_of_lt_of_le hi (Nat.min_le_left _ _))
    exact hnot (decide_eq_true hnewline)
  · rw [List.take_succ_eq_append_getElem hlt, heq]
  · rw [← heq, ← List.drop_eq_getElem_cons hlt, List.take_append_drop]

theorem eol_none {lineBuf : List UInt8} (h : lineBuf.findIdx? (· = newline) = none) :
    newline ∉ lineBuf := by
  intro hmem
  have hnot := List.findIdx?_eq_none_iff.mp h newline hmem
  exact absurd rfl (of_decide_eq_false hnot)

theorem readlinesWithTimeout_eol {lineBuf : List UInt8} {eolPos : ℕ} {socket : List Recv}
    (h : lineBuf.findIdx? (· = newline) = some eolPos) :
    readlinesWithTimeout lineBuf socket = .line (lineBuf.take (eolPos + 1)) ::
      readlinesWithTimeout (lineBuf.drop (eolPos + 1)) socket := by
  rw [readlinesWithTimeout.eq_def]
  split
  · rename_i found hfound
    obtain rfl := Option.some.inj (h.symm.trans hfound)
    rfl
  · rename_i hnone
    cases h.symm.trans hnone

/-- The items that are no time-outs are the lines of what the buffer holds and the connection
brings. -/
theorem readlines_lines (lineBuf : List UInt8) {socket : List Recv} (h : .interrupted ∉ socket) :
    .error ∉ readlinesWithTimeout lineBuf socket ∧
      (readlinesWithTimeout lineBuf socket).filterMap Item.bytes =
        splitLines (lineBuf ++ stream socket) := by
  induction lineBuf, socket using readlinesWithTimeout.induct with
  | case1 lineBuf socket eolPos heol ih =>
    obtain ⟨hbefore, htake, hsplit⟩ := eol_some heol
    have hlines : splitLines (lineBuf ++ stream socket) =
        (lineBuf.take eolPos ++ [newline]) ::
          splitLines (lineBuf.drop (eolPos + 1) ++ stream socket) := by
      conv_lhs => rw [hsplit]
      rw [List.append_assoc, List.cons_append]
      exact splitLines_line hbefore _
    obtain ⟨herror, hrest⟩ := ih h
    rw [readlinesWithTimeout_eol heol, hlines, ← htake, ← hrest]
    exact ⟨by simpa using herror, rfl⟩
  | case2 lineBuf heol socket ih =>
    obtain ⟨herror, hrest⟩ := ih (List.not_mem_of_not_mem_cons h)
    rw [readlinesWithTimeout, heol]
    exact ⟨by simpa using herror, hrest⟩
  | case3 lineBuf heol socket => exact absurd List.mem_cons_self h
  | case4 lineBuf heol bytes nonempty fits socket ih =>
    obtain ⟨herror, hrest⟩ := ih (List.not_mem_of_not_mem_cons h)
    rw [readlinesWithTimeout, heol]
    refine ⟨herror, hrest.trans ?_⟩
    rw [List.append_assoc]
    rfl
  | case5 heol =>
    rw [readlinesWithTimeout.eq_def]
    exact ⟨List.not_mem_nil, rfl⟩
  | case6 lineBuf heol hne =>
    have hlines : splitLines (lineBuf ++ stream []) = [lineBuf] := by
      rw [show stream [] = [] from rfl, List.append_nil]
      exact splitLines_unterminated (eol_none heol) hne
    rw [readlinesWithTimeout, heol, hlines]
    simp only [if_neg hne]
    exact ⟨by simp, rfl⟩

end LineReader

/-! ## The batches of a connection -/

namespace TCPHandler

/-- The batches of a kind, and what they are of. -/
def Forwards (batches : List (List (List UInt8))) (lines : List (List UInt8)) : Prop :=
  (∀ batch ∈ batches, batch ≠ [] ∧ batch.length ≤ maxBatchSize) ∧ batches.flatten = lines

theorem Forwards.cons {batch : List (List UInt8)} {batches : List (List (List UInt8))}
    {lines : List (List UInt8)} (h : Forwards batches lines) (hne : batch ≠ [])
    (hlength : batch.length ≤ maxBatchSize) : Forwards (batch :: batches) (batch ++ lines) :=
  ⟨List.forall_mem_cons.mpr ⟨⟨hne, hlength⟩, h.1⟩, by rw [List.flatten_cons, h.2]⟩

theorem forwardData_eq {batch : List (List UInt8)} (h : ∀ line ∈ batch, isUtf8 line)
    (later : List (List (List UInt8))) : forwardData batch later = batch :: later :=
  if_pos (List.all_eq_true.mpr h)

/-- A batch that is not full yet goes on with the lines that come. -/
theorem forwards_forwardFrom (batch : List (List UInt8)) {items : List LineReader.Item}
    (hbatch : batch.length < maxBatchSize) (herror : .error ∉ items)
    (hutf8 : ∀ line ∈ batch ++ (items.filterMap LineReader.Item.bytes).map strip, isUtf8 line) :
    Forwards (forwardFrom batch items)
      (batch ++ (items.filterMap LineReader.Item.bytes).map strip) := by
  induction items generalizing batch with
  | nil =>
    rw [forwardFrom]
    split
    · rename_i hnil
      rw [hnil]
      exact ⟨by simp, rfl⟩
    · rename_i hne
      rw [forwardData_eq fun line hline => hutf8 line (List.mem_append_left _ hline)]
      exact Forwards.cons ⟨by simp, rfl⟩ hne hbatch.le
  | cons item items ih =>
    have herror' := List.not_mem_of_not_mem_cons herror
    cases item with
    | error => exact absurd List.mem_cons_self herror
    | none =>
      rw [forwardFrom]
      split
      · rename_i hforward
        have hne : batch ≠ [] := hforward.resolve_right (Nat.not_le_of_lt hbatch)
        rw [forwardData_eq fun line hline => hutf8 line (List.mem_append_left _ hline)]
        refine (ih [] (by decide) herror' fun line hline => ?_).cons hne hbatch.le
        exact hutf8 line (List.mem_append_right _ hline)
      · exact ih batch hbatch herror' hutf8
    | line line =>
      have hline : batch ++ ((.line line :: items).filterMap LineReader.Item.bytes).map strip =
          (batch ++ [strip line]) ++ (items.filterMap LineReader.Item.bytes).map strip := by
        rw [List.append_assoc]
        rfl
      have hlength : (batch ++ [strip line]).length = batch.length + 1 := List.length_append
      rw [hline] at hutf8 ⊢
      rw [forwardFrom]
      split
      · rw [forwardData_eq fun line hline => hutf8 line (List.mem_append_left _ hline)]
        refine (ih [] (by decide) herror' fun line hline => ?_).cons (by simp) (by omega)
        exact hutf8 line (List.mem_append_right _ hline)
      · exact ih _ (by omega) herror' hutf8

theorem utf8_forwardData {batch : List (List UInt8)} {later : List (List (List UInt8))}
    (h : ∀ line ∈ later.flatten, isUtf8 line) :
    ∀ line ∈ (forwardData batch later).flatten, isUtf8 line := by
  rw [forwardData]
  split
  · rename_i hbatch
    rw [List.flatten_cons]
    exact List.forall_mem_append.mpr ⟨List.all_eq_true.mp hbatch, h⟩
  · exact fun _ hline => (List.not_mem_nil hline).elim

/-- Nothing else is forwarded. -/
theorem utf8_forwardFrom (batch : List (List UInt8)) (items : List LineReader.Item) :
    ∀ line ∈ (forwardFrom batch items).flatten, isUtf8 line := by
  have hnil : ∀ line ∈ ([] : List (List (List UInt8))).flatten, isUtf8 line :=
    fun _ hline => (List.not_mem_nil hline).elim
  induction items generalizing batch with
  | nil =>
    rw [forwardFrom]
    split
    · exact hnil
    · exact utf8_forwardData hnil
  | cons item items ih =>
    cases item with
    | error => exact hnil
    | none =>
      rw [forwardFrom]
      split
      · exact utf8_forwardData (ih [])
      · exact ih batch
    | line line =>
      rw [forwardFrom]
      split
      · exact utf8_forwardData (ih [])
      · exact ih _

/-- The lines of the connection are read, and forwarded in batches, in order. -/
def LinesForwarded (socket : List LineReader.Recv) : Prop :=
  (LineReader.readlinesWithTimeout [] socket).filterMap LineReader.Item.bytes =
      splitLines (LineReader.stream socket) ∧
    (∀ batch ∈ handle socket, batch ≠ [] ∧ batch.length ≤ maxBatchSize) ∧
    (handle socket).flatten = (splitLines (LineReader.stream socket)).map strip

/-- However the connection is cut and wherever it pauses, its lines are read; and they are forwarded
exactly where all of them are UTF-8. -/
theorem handle_lines_iff {socket : List LineReader.Recv} (h : .interrupted ∉ socket) :
    LinesForwarded socket ↔
      ∀ line ∈ splitLines (LineReader.stream socket), isUtf8 (strip line) := by
  obtain ⟨herror, hlines⟩ := LineReader.readlines_lines [] h
  rw [List.nil_append] at hlines
  constructor
  · rintro ⟨-, -, hflatten⟩ line hline
    have hforwarded := utf8_forwardFrom [] (LineReader.readlinesWithTimeout [] socket)
    apply hforwarded
    rw [show (forwardFrom [] _).flatten = _ from hflatten]
    exact List.mem_map_of_mem hline
  · intro hutf8
    have hforward : Forwards (handle socket)
        ([] ++ ((LineReader.readlinesWithTimeout [] socket).filterMap
          LineReader.Item.bytes).map strip) := by
      refine forwards_forwardFrom [] (by decide) herror ?_
      rw [hlines, List.nil_append]
      exact List.forall_mem_map.mpr hutf8
    rw [hlines, List.nil_append] at hforward
    exact ⟨hlines, hforward⟩

/-- Two lines in three parts, with a time-out within the first. -/
theorem handle_lines_iff_pause :
    LinesForwarded [.chunk [109, 32] (by decide) (by decide), .timeout,
      .chunk [49, 32, 48, 10, 110] (by decide) (by decide),
      .chunk [32, 49, 32, 48] (by decide) (by decide)] :=
  (handle_lines_iff (by simp)).mpr (by decide)

/-- A name that is Latin-1 is lost, with all that comes after it. -/
theorem lines_not_forwarded : ¬ ∀ socket : List LineReader.Recv, .interrupted ∉ socket →
    LinesForwarded socket := by
  intro h
  have hlines := h [.chunk [233, 32, 49, 32, 48, 10] (by decide) (by decide)] (by simp)
  have hutf8 := utf8_forwardFrom []
    (LineReader.readlinesWithTimeout [] [.chunk [233, 32, 49, 32, 48, 10] (by decide) (by decide)])
  rw [show (forwardFrom [] _).flatten = _ from hlines.2.2] at hutf8
  exact absurd (hutf8 [233, 32, 49, 32, 48] (by decide)) (by decide)

end TCPHandler

end NumentaApps.Runtime
