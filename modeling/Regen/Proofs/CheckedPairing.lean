import Regen.Proofs.CheckedScan
import Regen.Proofs.Pairs

/-!
# Checked pairing

The pass that pairs markers is written in this library with the open blocks on a stack, each with the marks inside
it. In memory it is done in place: the markers stand in one list, the stack holds the places of those that are
open, and where a block ends, the two markers of it are looked up and filled in. All of these places have to be in the
list, and so do the partners by which the blocks are put together in the end.

The two passes go along with each other step by step (`Checked.Tracks`). The list of the one consists of what the
other holds in its stack, from the outermost block inwards, and of the markers that are still to come; the places on
the stack are those at which the markers of the open blocks stand in the list (`Checked.places`). So the checked pass
is never out of range, and its blocks are those of the other one (`Checked.pairMarkers_eq`).
-/

namespace Regen.Checked

open Text (newline space)

/-! ## Blocks of two slots -/

/-- A marker in the list, with what is filled in when its block ends. -/
structure Slot where
  /-- The marker as it was found. -/
  marker : Marker
  /-- Where what is written back for it starts. -/
  headerStart : Nat
  /-- Where what is written back for it ends. -/
  headerEnd : Nat
  /-- Where its opener begins, or the body in front of it ends. -/
  headerOpen : Nat
  /-- Where its closer ends, or the body behind it begins. -/
  headerClose : Nat
  /-- Whether its block is inline. -/
  isInline : Bool := false
  /-- Where the body of its block stands. -/
  bodySpan : Span := ⟨0, 0⟩
  /-- The body of its block. -/
  body : Text := []
  /-- How many blocks hold its block, itself included. -/
  depth : Nat := 0
  /-- The place of its partner. -/
  dual? : Option Nat := none

namespace Slot

/-- The slot of a marker whose block has not ended. -/
def ofMarker (m : Marker) : Slot :=
  { marker := m, headerStart := m.lineStart, headerEnd := 0, headerOpen := m.openAt, headerClose := m.closeEnd }

/-- The slot of the open marker of a block. -/
def opening (b : Block) (dual : Nat) : Slot :=
  { marker := b.opening, headerStart := b.openSpan.start, headerEnd := b.openSpan.stop, headerOpen := b.opening.openAt
    headerClose := b.openSpan.stop, isInline := b.isInline, bodySpan := b.bodySpan, body := b.body, depth := b.depth
    dual? := some dual }

/-- The slot of the end marker of a block. -/
def ending (b : Block) (dual : Nat) : Slot :=
  { marker := b.ending, headerStart := b.endSpan.start, headerEnd := b.endSpan.stop
    headerOpen := if b.isInline then b.endSpan.start else b.ending.openAt
    headerClose := b.ending.closeEnd, isInline := b.isInline, dual? := some dual }

end Slot

/-- The block of two slots. -/
def blockOf (opening ending : Slot) : Block :=
  { opening := opening.marker, ending := ending.marker, depth := opening.depth, isInline := opening.isInline
    openSpan := ⟨opening.headerStart, opening.headerEnd⟩, endSpan := ⟨ending.headerStart, ending.headerEnd⟩
    bodySpan := opening.bodySpan, body := opening.body }

/-- Fills in the body of an inline block, which loses its padding to the markers. -/
def inlineBody (t : Text) (opening ending : Slot) : Option (Slot × Slot) := do
  let first? ← findByte space t opening.headerClose ending.headerOpen
  let start := match first? with
    | some i => i + 1
    | none => opening.headerClose
  let opening := { opening with headerClose := first?.getD opening.headerClose }
  let last? ← findLastByte space t opening.headerClose ending.headerOpen
  let stop := last?.getD ending.headerOpen
  let ending := match last? with
    | some i => { ending with headerOpen := i + 1 }
    | none => ending
  let body ← span t start stop
  return ({ opening with bodySpan := ⟨start, stop⟩, body }, ending)

/-- The lines between two offsets without the line feed at their end, if there are any. -/
def linesBetween (t : Text) (start stop : Nat) : Option Text :=
  if start < stop then do
    let last ← minus stop 1
    span t start last
  else some []

/-- Fills in the body of a block of whole lines. -/
def linesBody (t : Text) (opening ending : Slot) : Option (Slot × Slot) := do
  let start ← lineStop t opening.headerClose
  let last? ← findLastByte newline t opening.headerClose ending.headerOpen
  let stop := match last? with
    | some i => i + 1
    | none => 0
  let body ← linesBetween t start stop
  return ({ opening with headerClose := start, bodySpan := ⟨start, stop⟩, body }, ending)

/-- Where the line behind the closer of an end marker ends. -/
def endOfLine (t : Text) (closeEnd : Nat) : Option Nat := do
  let rest ← slice t closeEnd t.length
  return match rest.idxOf? newline with
    | some i => closeEnd + i + 1
    | none => t.length

/-- Pairs two slots, given their places and how many blocks are open. -/
def pair (t : Text) (openIdx endIdx depth : Nat) (isInline : Bool) (opening ending : Slot) : Option (Slot × Slot) := do
  let opening := { opening with dual? := some endIdx, depth, isInline }
  let ending := { ending with dual? := some openIdx, isInline }
  if isInline then
    let (opening, ending) ← inlineBody t opening ending
    return ({ opening with headerStart := opening.headerOpen, headerEnd := opening.headerClose },
      { ending with headerStart := ending.headerOpen, headerEnd := ending.headerClose })
  else
    let (opening, ending) ← linesBody t opening ending
    let headerEnd ← endOfLine t ending.headerClose
    return ({ opening with headerEnd := opening.headerClose }, { ending with headerEnd })

section

variable {t : Text} {o e : Marker}

/-- A search from behind finds no byte that a search from the front does not find. -/
theorem lastByteIn?_eq_none_of_byteIn? {b : UInt8} {i j : Nat} (h : Text.byteIn? b t i j = none) :
    Text.lastByteIn? b t i j = none := by
  rw [Text.byteIn?, Option.map_eq_none_iff, List.idxOf?_eq_none_iff] at h
  rw [Text.lastByteIn?, Option.map_eq_none_iff]
  exact Text.lastIdxOf?_eq_none.2 h

theorem endOfLine_eq {closeEnd : Nat} (hclose : t.isCharStart closeEnd = true) :
    endOfLine t closeEnd = some (Text.lineStop t closeEnd) := by
  rw [endOfLine, slice_eq hclose t.isCharStart_length (Text.le_length_of_isCharStart hclose), Text.lineStop,
    Text.byteIn?]
  simp only [Option.bind_eq_bind, Option.bind_some]
  cases (t.extract closeEnd t.length).idxOf? newline with
  | none => rfl
  | some i => simp [Nat.add_comm]

variable (ht : t.Encoded) (ho : o.Placed t) (he : e.Placed t)
include ht ho he

/-- **Two markers on one line** are paired to the slots of their block. -/
theorem pair_inline (openIdx endIdx depth : Nat) :
    pair t openIdx endIdx depth true (.ofMarker o) (.ofMarker e)
      = some (.opening (Block.inlineOf t o e depth) endIdx, .ending (Block.inlineOf t o e depth) openIdx) := by
  have hspace : space < 0x80 := by decide
  simp only [pair, inlineBody, Slot.ofMarker, if_true, findByte_eq, findLastByte_eq, Option.bind_eq_bind,
    Option.bind_some, Block.inlineOf]
  cases hfirst : Text.byteIn? space t o.closeEnd e.openAt with
  | none =>
    simp only [Option.getD_none, lastByteIn?_eq_none_of_byteIn? hfirst, span_eq_extract ho.closeEnd he.openAt,
      Option.bind_some]
    rfl
  | some first =>
    have hbody := ht.isCharStart_succ_of_byteIn? hspace hfirst
    simp only [Option.getD_some]
    cases hfound : Text.lastByteIn? space t first e.openAt with
    | none =>
      simp only [Option.getD_none, span_eq_extract hbody he.openAt, Option.bind_some]
      rfl
    | some last =>
      simp only [Option.getD_some, span_eq_extract hbody (Text.isCharStart_of_lastByteIn? hspace hfound),
        Option.bind_some]
      rfl

omit ht ho he in
/-- What stands in front of a line feed is cut out. -/
theorem linesBetween_eq {start stop : Nat} (hstart : t.isCharStart start = true)
    (hstop : ∀ last, stop = last + 1 → t.isCharStart last = true) :
    linesBetween t start stop = some (if start < stop then t.extract start (stop - 1) else []) := by
  rw [linesBetween]
  split
  next hlt =>
    obtain ⟨last, rfl⟩ : ∃ last, stop = last + 1 := ⟨stop - 1, by omega⟩
    rw [minus_eq (Nat.le_add_left 1 last), Nat.add_sub_cancel, Option.bind_eq_bind, Option.bind_some,
      span_eq_extract hstart (hstop last rfl)]
  next => rfl

omit ho in
/-- **Two markers of whole lines** are paired to the slots of their block. -/
theorem pair_lines (openIdx endIdx depth : Nat) :
    pair t openIdx endIdx depth false (.ofMarker o) (.ofMarker e)
      = some (.opening (Block.linesOf t o e depth) endIdx, .ending (Block.linesOf t o e depth) openIdx) := by
  have hstart := ht.isCharStart_lineStop o.closeEnd
  simp only [pair, linesBody, Slot.ofMarker, Bool.false_eq_true, if_false, lineStop_eq, findLastByte_eq,
    Option.bind_eq_bind, Option.bind_some, Block.linesOf]
  cases hlast : Text.lastByteIn? newline t o.closeEnd e.openAt with
  | none =>
    have hbody : linesBetween t (Text.lineStop t o.closeEnd) 0 = some [] := rfl
    simp only [hbody, Option.bind_some, Option.pure_def, endOfLine_eq he.closeEnd]
    rfl
  | some last =>
    have hcut := Text.isCharStart_of_lastByteIn? (by decide) hlast
    have hbody := linesBetween_eq hstart (fun i (hi : last + 1 = i + 1) => Nat.succ.inj hi ▸ hcut)
    simp only [hbody, Option.bind_some, Option.pure_def, endOfLine_eq he.closeEnd]
    rfl

/-- **Two markers are paired** to the slots of their block. -/
theorem pair_eq (openIdx endIdx depth : Nat) (isInline : Bool) :
    pair t openIdx endIdx depth isInline (.ofMarker o) (.ofMarker e)
      = some (.opening (Block.ofMarkers t o e depth isInline) endIdx,
          .ending (Block.ofMarkers t o e depth isInline) openIdx) := by
  cases isInline with
  | true => exact pair_inline ht ho he openIdx endIdx depth
  | false => exact pair_lines ht he openIdx endIdx depth

end

/-! ## The pass over the list -/

/-- How far the pass over the list has come. -/
structure Walk where
  /-- The list. -/
  slots : List Slot
  /-- The places of the open markers whose blocks have not ended, innermost first. -/
  stack : List Nat := []
  /-- What is known of the layout inside of each of their blocks. -/
  layouts : List (Option Bool) := []
  /-- The family of the marker met last, and whether it ends a block. -/
  kind? : Option (Family × Bool) := none
  /-- The place of the marker met last. -/
  previous? : Option Nat := none
  /-- What the block that ended last asks for. -/
  rule : LineRule := .free

namespace Walk

/-- Whether an open marker is followed at once by an end marker of the other family. -/
def clashes (kind? : Option (Family × Bool)) (m : Marker) : Bool :=
  match kind? with
  | some (family, isEnd) => !isEnd && m.isEnd && family != m.family
  | none => false

/-- Whether an open marker would put an edit directly inside an edit. -/
def nestsEdits (w : Walk) (m : Marker) : Option Bool :=
  if !m.isEnd && m.family == .edit then
    match w.stack with
    | top :: _ => do
      let slot ← w.slots[top]?
      return slot.marker.family == .edit
    | [] => some false
  else some false

/-- Whether no line ends between the marker met last, if there is one, and this one. -/
def sameLine? (t : Text) (w : Walk) (slot : Slot) : Option (Option Bool) :=
  match w.previous? with
  | some i => do
    let previous ← w.slots[i]?
    let newline? ← findByte newline t previous.headerClose slot.headerOpen
    return some newline?.isNone
  | none => some none

/-- Notes in the innermost open block whether a marker is on the line of the one before. -/
def noteLayout (sameLine : Bool) : List (Option Bool) → Except Problem (List (Option Bool))
  | [] => .ok []
  | top :: rest => do
    let top ← settleLayout top sameLine
    return top :: rest

/-- Follows the layout rules up to the marker at a place. -/
def advance (w : Walk) (idx : Nat) (m : Marker) (sameLine? : Option Bool) : Except Problem Walk :=
  let w := { w with kind? := some (m.family, m.isEnd), previous? := some idx }
  match sameLine? with
  | none => .ok w
  | some sameLine => do
    let rule ← w.rule.next sameLine
    let layouts ← noteLayout sameLine w.layouts
    return { w with rule, layouts }

/-- Opens a block. -/
def push (w : Walk) (idx : Nat) : Walk :=
  let layout? := if w.layouts.head?.join = some true then some true else none
  { w with stack := idx :: w.stack, layouts := layout? :: w.layouts }

/-- A list cut in two at a place in it. -/
def splitAt (slots : List Slot) (idx : Nat) : Option (List Slot × List Slot) :=
  if idx ≤ slots.length then some (slots.take idx, slots.drop idx) else none

/-- Ends the innermost open block. -/
def pop (t : Text) (w : Walk) (idx : Nat) (m : Marker) : Option (Except Problem Walk) :=
  match w.stack with
  | [] => some (.error (.strayEnd (m.tokens.opener ++ [Text.space] ++ m.tokens.closer)))
  | openIdx :: stack => do
    let isInline := w.layouts.head?.join == some true
    let (before, after) ← splitAt w.slots idx
    let opening ← before[openIdx]?
    let ending ← after[0]?
    let (opening, ending) ← pair t openIdx idx w.stack.length isInline opening ending
    return .ok { w with
      slots := before.set openIdx opening ++ after.set 0 ending, stack, layouts := w.layouts.tail
      rule := if isInline then .undecided else .newLine }

/-- Meets the marker at a place. -/
def step (t : Text) (w : Walk) (idx : Nat) : Option (Except Problem Walk) := do
  let slot ← w.slots[idx]?
  let m := slot.marker
  if clashes w.kind? m then return .error .wrongInclusion
  else
    let nested ← w.nestsEdits m
    if nested then return .error (.directlyEnclosedEdit m.quoted m.quotedEnd)
    else
      let sameLine? ← w.sameLine? t slot
      match w.advance idx m sameLine? with
      | .error problem => return .error problem
      | .ok w => if m.isEnd then w.pop t idx m else return .ok (w.push idx)

/-- The location of the marker at a place. -/
def place (t : Text) (w : Walk) (idx : Nat) : Option Location := do
  let slot ← w.slots[idx]?
  locate t slot.headerOpen slot.marker.tokens.opener.length

/-- Meets the markers that are left, from a place on. -/
def run (t : Text) : (left idx : Nat) → Walk → Guarded Walk
  | 0, _, w => return w
  | left + 1, idx, w => do
    match ← w.step t idx with
    | .ok w => run t left (idx + 1) w
    | .error problem => failAt problem (w.place t idx)

end Walk

/-- The markers of a text, each with its block. A block left open is reported at the closer of its open marker. -/
def fillIn (t : Text) (markers : List Marker) : Guarded (List Slot) := do
  let w ← Walk.run t markers.length 0 { slots := markers.map .ofMarker }
  match w.stack with
  | [] => return w.slots
  | top :: _ => do
    let slot ← (w.slots[top]? : Option Slot)
    let width := slot.marker.tokens.closer.length
    let closeAt ← minus slot.headerClose width
    failAt (.unendedBlock slot.marker.quotedEnd) (locate t closeAt width)

/-- The mark of a slot and of its partner. -/
def markOf (slots : List Slot) (slot : Slot) : Option Mark := do
  let dual ← slot.dual?
  let other ← slots[dual]?
  return if slot.marker.isEnd then .ending (blockOf other slot) else .opening (blockOf slot other)

/-- The marks of some of the slots. -/
def marksOf (slots : List Slot) : List Slot → Option (List Mark)
  | [] => some []
  | slot :: rest => do
    let mark ← markOf slots slot
    let marks ← marksOf slots rest
    return mark :: marks

/-- The marks of a text with these markers. -/
def pairMarkers (t : Text) (markers : List Marker) : Guarded (List Mark) := do
  let slots ← fillIn t markers
  let marks ← marksOf slots slots
  return marks

/-! ## What the list consists of -/

/-- What a place of the list is taken by. -/
inductive Cell where
  /-- An open marker whose block has not ended, or a marker that has not been met. -/
  | waiting (m : Marker)
  /-- A marker of a block that has ended. -/
  | paired (m : Mark)

/-- The cells of the marks that have ended outside of all open blocks, and of the open blocks, the outermost
first. -/
def cells (closed : List Mark) : List OpenBlock → List Cell
  | [] => closed.map .paired
  | top :: outer => cells closed outer ++ .waiting top.marker :: top.inner.map .paired

/-- The places of the open markers among the cells. -/
def places (closed : List Mark) : List OpenBlock → List Nat
  | [] => []
  | _ :: outer => (cells closed outer).length :: places closed outer

/-- **A slot shows a cell** among others: it is filled in as the cell says, and knows the place of its
partner. -/
inductive Shows (all : List Cell) : Slot → Cell → Prop
  /-- The slot of a marker whose block has not ended. -/
  | waiting (m : Marker) : Shows all (.ofMarker m) (.waiting m)
  /-- The slot of the open marker of a block. -/
  | opening (b : Block) (i : Nat) : all[i]? = some (.paired (.ending b)) →
      Shows all (.opening b i) (.paired (.opening b))
  /-- The slot of the end marker of a block. -/
  | ending (b : Block) (i : Nat) : all[i]? = some (.paired (.opening b)) →
      Shows all (.ending b i) (.paired (.ending b))

/-- **The slots of a list show its cells**, place by place. -/
structure Lined (slots : List Slot) (all : List Cell) : Prop where
  /-- There is a slot for every cell. -/
  length_eq : slots.length = all.length
  /-- It shows the cell. -/
  shows {i : Nat} {c : Cell} : all[i]? = some c → ∃ slot, slots[i]? = some slot ∧ Shows all slot c

/-- Marks that are added inside of the innermost open block come behind all other cells. -/
theorem cells_append (marks : List Mark) (stack : List OpenBlock) (closed : List Mark) :
    cells (Pairing.append marks stack closed).2 (Pairing.append marks stack closed).1
        = cells closed stack ++ marks.map Cell.paired ∧
      places (Pairing.append marks stack closed).2 (Pairing.append marks stack closed).1 = places closed stack := by
  cases stack with
  | nil => simp [Pairing.append, cells, places]
  | cons top rest => simp [Pairing.append, cells, places]

/-- The open blocks stay as they are otherwise. -/
theorem stack_append (marks : List Mark) (stack : List OpenBlock) (closed : List Mark) :
    (Pairing.append marks stack closed).1.map (·.marker) = stack.map (·.marker) ∧
      (Pairing.append marks stack closed).1.map (·.layout?) = stack.map (·.layout?) := by
  cases stack with
  | nil => exact ⟨rfl, rfl⟩
  | cons top rest => exact ⟨rfl, rfl⟩

/-- **A slot goes on showing its cell** as long as the marks among the cells stay where they are. -/
theorem Shows.mono {all all' : List Cell} {slot : Slot} {c : Cell} (h : Shows all slot c)
    (hall : ∀ (i : Nat) (m : Mark), all[i]? = some (Cell.paired m) → all'[i]? = some (Cell.paired m)) :
    Shows all' slot c := by
  cases h with
  | waiting m => exact .waiting m
  | opening b i hi => exact .opening b i (hall i _ hi)
  | ending b i hi => exact .ending b i (hall i _ hi)

namespace Lined

variable {slots : List Slot} {all : List Cell}

theorem of_markers (ms : List Marker) : Lined (ms.map .ofMarker) (ms.map .waiting) where
  length_eq := by simp
  shows := by
    intro i c hc
    obtain ⟨m, hm, rfl⟩ := Option.map_eq_some_iff.1 (List.getElem?_map.symm.trans hc)
    exact ⟨.ofMarker m, by rw [List.getElem?_map, hm]; rfl, .waiting m⟩

/-- Where a marker waits, its slot is as it was in the beginning. -/
theorem of_waiting (h : Lined slots all) {i : Nat} {m : Marker} (hi : all[i]? = some (.waiting m)) :
    slots[i]? = some (.ofMarker m) := by
  obtain ⟨slot, hslot, hshows⟩ := h.shows hi
  cases hshows
  exact hslot

/-- **Two markers that wait are paired** in the slots and among the cells. -/
theorem set (h : Lined slots all) {i j : Nat} (hij : i < j) {o e : Marker} (ho : all[i]? = some (.waiting o))
    (he : all[j]? = some (.waiting e)) (b : Block) :
    Lined ((slots.set i (.opening b j)).set j (.ending b i))
      ((all.set i (.paired (.opening b))).set j (.paired (.ending b))) := by
  have hi := (List.getElem?_eq_some_iff.1 ho).1
  have hj := (List.getElem?_eq_some_iff.1 he).1
  have hlength := h.length_eq
  have hopening : ((all.set i (.paired (.opening b))).set j (.paired (.ending b)))[i]?
      = some (.paired (.opening b)) := by
    rw [List.getElem?_set_ne hij.ne', List.getElem?_set_self hi]
  have hending : ((all.set i (.paired (.opening b))).set j (.paired (.ending b)))[j]? = some (.paired (.ending b)) := by
    rw [List.getElem?_set_self (by simpa using hj)]
  refine ⟨by simpa using hlength, fun {k c} hc => ?_⟩
  rcases eq_or_ne j k with rfl | hjk
  · obtain rfl : Cell.paired (.ending b) = c := Option.some.inj (hending.symm.trans hc)
    exact ⟨_, List.getElem?_set_self (by simpa [hlength] using hj), .ending b i hopening⟩
  rcases eq_or_ne i k with rfl | hik
  · obtain rfl : Cell.paired (.opening b) = c := Option.some.inj (hopening.symm.trans hc)
    exact ⟨_, by rw [List.getElem?_set_ne hjk, List.getElem?_set_self (by omega)], .opening b j hending⟩
  rw [List.getElem?_set_ne hjk, List.getElem?_set_ne hik] at hc
  obtain ⟨slot, hslot, hshows⟩ := h.shows hc
  refine ⟨slot, by rw [List.getElem?_set_ne hjk, List.getElem?_set_ne hik, hslot], hshows.mono fun k m hk => ?_⟩
  -- neither of the two places is that of a mark
  have hki : i ≠ k := by
    rintro rfl
    cases ho.symm.trans hk
  have hkj : j ≠ k := by
    rintro rfl
    cases he.symm.trans hk
  rw [List.getElem?_set_ne hkj, List.getElem?_set_ne hki, hk]

end Lined

/-! ## The two passes go along with each other -/

/-- The marker met last and its slot. -/
inductive LastMet (slots : List Slot) : Option Nat → Option Marker → Prop
  /-- No marker has been met. -/
  | none : LastMet slots none none
  /-- What stands behind the one stands behind the other. -/
  | some {i : Nat} {slot : Slot} {m : Marker} : slots[i]? = some slot → slot.headerClose = m.closeEnd →
      LastMet slots (some i) (some m)

/-- **The pass over the list goes along** with the pass that keeps the marks in its stack. -/
structure Tracks (t : Text) (w : Walk) (p : Pairing) (rest : List Marker) : Prop where
  /-- The list consists of what the other pass holds and of the markers that are left. -/
  lined : Lined w.slots (cells p.closed p.stack ++ rest.map .waiting)
  /-- The stack has the places of the open markers. -/
  stack : w.stack = places p.closed p.stack
  /-- What is known of the layouts is the same. -/
  layouts : w.layouts = p.stack.map (·.layout?)
  /-- The marker met last is of the same kind. -/
  kind : w.kind? = p.previous?.map fun m => (m.family, m.isEnd)
  /-- It ends where its slot does. -/
  previous : LastMet w.slots w.previous? p.previous?
  /-- The rule is the same. -/
  rule : w.rule = p.rule
  /-- The open markers are placed in the text. -/
  placed : ∀ o ∈ p.stack, o.marker.Placed t

/-- The place of the next marker. -/
def nextPlace (p : Pairing) : Nat := (cells p.closed p.stack).length

namespace Tracks

variable {t : Text} {w : Walk} {p : Pairing} {m : Marker} {rest : List Marker}

/-- The marker that waits next is at the next place. -/
theorem waiting_next (p : Pairing) (m : Marker) (rest : List Marker) :
    (cells p.closed p.stack ++ (m :: rest).map Cell.waiting)[nextPlace p]? = some (.waiting m) := by
  simp [nextPlace]

/-- The innermost open marker waits at the place on top of the stack. -/
theorem waiting_top {closed : List Mark} {top : OpenBlock} {outer : List OpenBlock} (behind : List Cell) :
    (cells closed (top :: outer) ++ behind)[(cells closed outer).length]? = some (.waiting top.marker) := by
  simp [cells]

variable (h : Tracks t w p (m :: rest))
include h

theorem slot_next : w.slots[nextPlace p]? = some (.ofMarker m) := h.lined.of_waiting (waiting_next p m rest)

omit h in
theorem slot_top (h : Tracks t w p rest) {top : OpenBlock} {outer : List OpenBlock} (hstack : p.stack = top :: outer) :
    w.slots[(cells p.closed outer).length]? = some (.ofMarker top.marker) := by
  refine h.lined.of_waiting ?_
  rw [hstack]
  exact waiting_top _

theorem clashes_eq (m : Marker) : Walk.clashes w.kind? m = Pairing.clashes p.previous? m := by
  rw [h.kind]
  cases p.previous? <;> rfl

theorem nestsEdits_eq (m : Marker) : w.nestsEdits m = some (Pairing.nestsEdits p.stack m) := by
  rw [Walk.nestsEdits, h.stack]
  cases hstack : p.stack with
  | nil => simp [places, Pairing.nestsEdits]
  | cons top outer =>
    simp only [places, h.slot_top hstack, Option.bind_eq_bind, Option.bind_some]
    cases hend : m.isEnd <;> cases hfamily : m.family <;> simp [Pairing.nestsEdits, hend, hfamily, Slot.ofMarker]

theorem sameLine?_eq : w.sameLine? t (.ofMarker m) = some (p.previous?.map (Pairing.onSameLine t · m)) := by
  have hprevious := h.previous
  rw [Walk.sameLine?]
  generalize w.previous? = place? at hprevious ⊢
  generalize p.previous? = previous? at hprevious ⊢
  cases hprevious with
  | none => rfl
  | @some i slot previous hslot hclose =>
    have hsame : (Text.byteIn? newline t previous.closeEnd m.openAt).isNone = Pairing.onSameLine t previous m := by
      rw [Bool.eq_iff_iff, Option.isNone_iff_eq_none, Text.byteIn?, Option.map_eq_none_iff, List.idxOf?_eq_none_iff,
        Pairing.onSameLine, decide_eq_true_eq]
    simp only [hslot, findByte_eq, hclose, Option.bind_eq_bind, Option.bind_some, Option.map_some]
    exact congrArg (some ∘ some) hsame

end Tracks

/-- **Two outcomes agree** if both fail for the same reason, or both succeed with results that belong to each
other. -/
inductive Agree {ε α β : Type} (R : α → β → Prop) : Except ε α → Except ε β → Prop
  /-- Both succeed. -/
  | ok {a : α} {b : β} : R a b → Agree R (.ok a) (.ok b)
  /-- Both fail. -/
  | error (e : ε) : Agree R (.error e) (.error e)

/-- The layouts are noted alike. -/
theorem noteLayout_agrees (closed : List Mark) (sameLine : Bool) (stack : List OpenBlock) :
    Agree (fun layouts stack' => layouts = stack'.map (·.layout?) ∧ cells closed stack' = cells closed stack ∧
        places closed stack' = places closed stack ∧ stack'.map (·.marker) = stack.map (·.marker))
      (Walk.noteLayout sameLine (stack.map (·.layout?))) (Pairing.noteLayout sameLine stack) := by
  cases stack with
  | nil => exact .ok ⟨rfl, rfl, rfl, rfl⟩
  | cons top rest =>
    simp only [List.map_cons, Walk.noteLayout, Pairing.noteLayout]
    cases settleLayout top.layout? sameLine with
    | error e => exact .error e
    | ok layout? => exact .ok ⟨rfl, rfl, rfl, rfl⟩

/-- A list is changed at two places, part by part. -/
theorem set_append_set {α : Type} {l : List α} {i j : Nat} (hij : i < j) (hj : j < l.length) (a b : α) :
    (l.take j).set i a ++ (l.drop j).set 0 b = (l.set i a).set j b := by
  obtain ⟨x, c, y, rfl, rfl⟩ : ∃ x c y, l = x ++ c :: y ∧ j = x.length :=
    ⟨l.take j, l[j], l.drop (j + 1), by rw [← List.drop_eq_getElem_cons hj, List.take_append_drop], by simp; omega⟩
  simp [List.set_append_left _ _ hij]

namespace Tracks

variable {t : Text} {w : Walk} {p : Pairing} {m : Marker} {rest : List Marker}

/-- **The layout rules are followed** alike. -/
theorem advance (h : Tracks t w p (m :: rest)) :
    Agree (fun w' p' => Tracks t w' p' (m :: rest) ∧ nextPlace p' = nextPlace p ∧
        w'.previous? = some (nextPlace p) ∧ p'.previous? = some m)
      (w.advance (nextPlace p) m (p.previous?.map (Pairing.onSameLine t · m))) (Pairing.advance t p m) := by
  have hmet : LastMet w.slots (some (nextPlace p)) (some m) := .some h.slot_next rfl
  cases hprevious : p.previous? with
  | none =>
    simp only [Walk.advance, Pairing.advance, hprevious, Option.map_none]
    exact .ok ⟨{ h with kind := rfl, previous := hmet }, rfl, rfl, rfl⟩
  | some previous =>
    simp only [Walk.advance, Pairing.advance, hprevious, Option.map_some, h.rule, h.layouts]
    cases hrule : p.rule.next (Pairing.onSameLine t previous m) with
    | error e => exact .error e
    | ok rule =>
      have hnote := noteLayout_agrees p.closed (Pairing.onSameLine t previous m) p.stack
      simp only [bind, Except.bind]
      generalize Walk.noteLayout _ _ = x at hnote ⊢
      generalize Pairing.noteLayout _ _ = y at hnote ⊢
      cases hnote with
      | error e => exact .error e
      | ok hstack =>
        obtain ⟨hlayouts, hcells, hplaces, hmarkers⟩ := hstack
        refine .ok ⟨⟨?_, ?_, hlayouts, rfl, hmet, rfl, ?_⟩, congrArg List.length hcells, rfl, rfl⟩
        · rw [hcells]
          exact h.lined
        · rw [hplaces]
          exact h.stack
        · have hplaced : ∀ o ∈ p.stack.map (·.marker), o.Placed t := by simpa using h.placed
          rw [← hmarkers] at hplaced
          simpa using hplaced

/-- **A block is opened** alike. -/
theorem push (h : Tracks t w p (m :: rest)) (hm : m.Placed t) :
    Tracks t (w.push (nextPlace p)) (p.push m) rest ∧ nextPlace (p.push m) = nextPlace p + 1 := by
  refine ⟨⟨?_, ?_, ?_, h.kind, h.previous, h.rule, ?_⟩, by simp [nextPlace, Pairing.push, cells]⟩
  · simpa [Pairing.push, Walk.push, cells] using h.lined
  · simp [Pairing.push, Walk.push, places, nextPlace, h.stack]
  · rw [Walk.push, Pairing.push, h.layouts]
    cases p.stack with
    | nil => rfl
    | cons top outer => rfl
  · simpa [Pairing.push] using ⟨hm, h.placed⟩

theorem length_places (closed : List Mark) (stack : List OpenBlock) : (places closed stack).length = stack.length := by
  induction stack with
  | nil => rfl
  | cons top outer ih => rw [places, List.length_cons, List.length_cons, ih]

/-- The cells of a block that ends are changed at its two places. -/
theorem cells_ended {b : Block} (top : OpenBlock) (outer : List OpenBlock) (closed : List Mark) (m : Marker)
    (behind : List Cell) :
    ((cells closed (top :: outer) ++ .waiting m :: behind).set (cells closed outer).length (.paired (.opening b))).set
        (cells closed (top :: outer)).length (.paired (.ending b))
      = cells closed outer ++ (Mark.opening b :: (top.inner ++ [.ending b])).map Cell.paired ++ behind := by
  have hlength : (cells closed (top :: outer)).length
      = (cells closed outer ++ .paired (.opening b) :: top.inner.map Cell.paired).length := by simp [cells]
  rw [hlength, cells, List.append_assoc, List.set_append_right _ _ (Nat.le_refl _), Nat.sub_self, List.cons_append,
    List.set_cons_zero, ← List.cons_append, ← List.append_assoc, List.set_append_right _ _ (Nat.le_refl _),
    Nat.sub_self, List.set_cons_zero]
  simp

/-- The two markers of a block that ends are paired in their slots. -/
theorem pop_eq (h : Tracks t w p (m :: rest)) (ht : t.Encoded) (hm : m.Placed t) {top : OpenBlock}
    {outer : List OpenBlock} (hstack : p.stack = top :: outer) {b : Block}
    (hb : Block.ofMarkers t top.marker m p.stack.length (top.layout? == some true) = b) :
    w.pop t (nextPlace p) m = some (.ok { w with
      slots := (w.slots.set (cells p.closed outer).length (.opening b (nextPlace p))).set (nextPlace p)
        (.ending b (cells p.closed outer).length)
      stack := places p.closed outer, layouts := w.layouts.tail
      rule := if top.layout? == some true then .undecided else .newLine }) := by
  have hplaces : w.stack = (cells p.closed outer).length :: places p.closed outer := by rw [h.stack, hstack]; rfl
  have hnext := h.slot_next
  have hlt : (cells p.closed outer).length < nextPlace p := by simp [nextPlace, hstack, cells]
  have hle : nextPlace p < w.slots.length := (List.getElem?_eq_some_iff.1 hnext).1
  have hlayout : (w.layouts.head?.join == some true) = (top.layout? == some true) := by
    rw [h.layouts, hstack, List.map_cons, List.head?_cons, Option.join_some]
  have hsplit : Walk.splitAt w.slots (nextPlace p)
      = some (w.slots.take (nextPlace p), w.slots.drop (nextPlace p)) := if_pos hle.le
  have hbefore : (w.slots.take (nextPlace p))[(cells p.closed outer).length]? = some (.ofMarker top.marker) := by
    rw [List.getElem?_take_of_lt hlt, h.slot_top hstack]
  have hafter : (w.slots.drop (nextPlace p))[0]? = some (.ofMarker m) := by
    rw [List.getElem?_drop, Nat.add_zero, hnext]
  have hdepth : (places p.closed outer).length = outer.length := length_places p.closed outer
  have hpair := pair_eq ht (h.placed top (by simp [hstack])) hm (cells p.closed outer).length (nextPlace p)
    p.stack.length (top.layout? == some true)
  rw [hb, hstack, List.length_cons] at hpair
  simp only [Walk.pop, hplaces, hsplit, List.length_cons, hdepth, hbefore, hafter, hlayout, hpair,
    Option.bind_eq_bind, Option.bind_some]
  rw [set_append_set hlt hle]
  rfl

/-- **A block is ended** alike. -/
theorem pop (h : Tracks t w p (m :: rest)) (ht : t.Encoded) (hm : m.Placed t)
    (hw : w.previous? = some (nextPlace p)) (hp : p.previous? = some m) :
    ∃ x, w.pop t (nextPlace p) m = some x ∧
      Agree (fun w' p' => Tracks t w' p' rest ∧ nextPlace p' = nextPlace p + 1) x (p.pop t m) := by
  cases hstack : p.stack with
  | nil =>
    have hempty : w.stack = [] := by rw [h.stack, hstack]; rfl
    simp only [Walk.pop, Pairing.pop, hempty, hstack]
    exact ⟨_, rfl, .error _⟩
  | cons top outer =>
    obtain ⟨b, hb⟩ : ∃ b, Block.ofMarkers t top.marker m p.stack.length (top.layout? == some true) = b := ⟨_, rfl⟩
    have hends : b.ending = m := hb ▸ Block.ofMarkers_ending ..
    have hlt : (cells p.closed outer).length < nextPlace p := by simp [nextPlace, hstack, cells]
    have hle : nextPlace p < w.slots.length := (List.getElem?_eq_some_iff.1 h.slot_next).1
    have hlined := h.lined.set hlt (hstack ▸ waiting_top _) (waiting_next p m rest) b
    have hcells := cells_append (.opening b :: (top.inner ++ [.ending b])) outer p.closed
    rw [nextPlace, hstack, List.map_cons, cells_ended top outer p.closed m, ← hcells.1] at hlined
    refine ⟨_, h.pop_eq ht hm hstack hb, ?_⟩
    rw [hstack] at hb
    simp only [Pairing.pop, hstack, hb]
    refine .ok ⟨⟨?_, hcells.2.symm, ?_, h.kind, ?_, rfl, ?_⟩, ?_⟩
    · rw [nextPlace, hstack]
      exact hlined
    · rw [h.layouts, hstack, (stack_append ..).2]
      rfl
    · rw [hw, hp]
      exact .some (List.getElem?_set_self (by simpa using hle)) (congrArg Marker.closeEnd hends)
    · have hplaced : ∀ m ∈ outer.map (·.marker), m.Placed t := by
        have houter := h.placed
        rw [hstack] at houter
        simpa using fun o ho => houter o (List.mem_cons_of_mem _ ho)
      rw [← (stack_append (.opening b :: (top.inner ++ [.ending b])) outer p.closed).1] at hplaced
      simpa using hplaced
    · rw [nextPlace, nextPlace, hcells.1, hstack]
      simp only [cells, List.length_append, List.length_cons, List.length_map, List.length_nil]
      omega

/-- **One marker is met** alike. -/
theorem step (h : Tracks t w p (m :: rest)) (ht : t.Encoded) (hm : m.Placed t) :
    ∃ x, w.step t (nextPlace p) = some x ∧
      Agree (fun w' p' => Tracks t w' p' rest ∧ nextPlace p' = nextPlace p + 1) x (p.step t m) := by
  have hadvance := h.advance
  rw [Walk.step, Pairing.step]
  simp only [h.slot_next, Option.bind_eq_bind, Option.bind_some, show (Slot.ofMarker m).marker = m from rfl,
    h.clashes_eq m, h.nestsEdits_eq m, h.sameLine?_eq]
  split
  next => exact ⟨_, rfl, .error _⟩
  split
  next => exact ⟨_, rfl, .error _⟩
  generalize w.advance (nextPlace p) m (p.previous?.map (Pairing.onSameLine t · m)) = x at hadvance ⊢
  generalize Pairing.advance t p m = y at hadvance ⊢
  cases hadvance with
  | error e => exact ⟨_, rfl, .error e⟩
  | @ok w' p' hboth =>
    obtain ⟨htracks, hplace, hw, hp⟩ := hboth
    rw [← hplace] at hw ⊢
    simp only [bind, Except.bind]
    split
    next => exact htracks.pop ht hm hw hp
    next => exact ⟨_, rfl, .ok (htracks.push hm)⟩

end Tracks

/-- **The pass over the list** goes along with the other one to its end. -/
theorem run_agrees {t : Text} (ht : t.Encoded) {rest : List Marker} {w : Walk} {p : Pairing} (h : Tracks t w p rest)
    (hrest : ∀ m ∈ rest, m.Placed t) :
    ∃ x, w.run t rest.length (nextPlace p) = answered x ∧
      Agree (fun w' p' => Tracks t w' p' []) x (p.run t rest) := by
  induction rest generalizing w p with
  | nil => exact ⟨_, rfl, .ok h⟩
  | cons m rest ih =>
    obtain ⟨hm, hrest⟩ := List.forall_mem_cons.1 hrest
    obtain ⟨x, hstep, hagree⟩ := h.step ht hm
    rw [List.length_cons, Walk.run, hstep, lift_some_bind, Pairing.run]
    generalize p.step t m = y at hagree ⊢
    cases hagree with
    | ok hboth =>
      rw [← hboth.2]
      exact ih hboth.1 hrest
    | error e =>
      have hplace : w.place t (nextPlace p) = some (m.place t) := by
        rw [Walk.place, h.slot_next, Option.bind_eq_bind, Option.bind_some]
        exact locate_eq ht _ _
      exact ⟨_, by rw [hplace]; rfl, .error _⟩

/-- **The marks are put together** from the slots and their partners. -/
theorem marksOf_eq {slots : List Slot} {marks : List Mark} (h : Lined slots (marks.map .paired))
    (hends : ∀ m ∈ marks, m.marker.isEnd = false ↔ ∃ b, m = .opening b) : marksOf slots slots = some marks := by
  have hmark : ∀ {i : Nat} {m : Mark}, marks[i]? = some m →
      ∃ slot, slots[i]? = some slot ∧ markOf slots slot = some m := by
    intro i m hi
    have hcell : (marks.map Cell.paired)[i]? = some (.paired m) := by rw [List.getElem?_map, hi]; rfl
    obtain ⟨slot, hslot, hshows⟩ := h.shows hcell
    refine ⟨slot, hslot, ?_⟩
    have hend := hends m (List.mem_of_getElem? hi)
    cases hshows with
    | opening b j hj =>
      have hopen : b.opening.isEnd = false := hend.2 ⟨b, rfl⟩
      obtain ⟨other, hother, hshown⟩ := h.shows hj
      cases hshown
      simp [markOf, Slot.opening, hother, hopen, blockOf, Slot.ending]
    | ending b j hj =>
      have hclose : b.ending.isEnd = true := Mark.isEnd_of_iff hend
      obtain ⟨other, hother, hshown⟩ := h.shows hj
      cases hshown
      simp [markOf, Slot.ending, hother, hclose, blockOf, Slot.opening]
  have hall : List.Forall₂ (fun slot m => markOf slots slot = some m) slots marks := by
    refine List.forall₂_iff_get.2 ⟨by simpa using h.length_eq, fun i hi hi' => ?_⟩
    obtain ⟨slot, hslot, hmark⟩ := hmark (List.getElem?_eq_getElem hi')
    rw [List.getElem?_eq_getElem hi, Option.some.injEq] at hslot
    simpa [hslot] using hmark
  have hmarks : ∀ {l : List Slot} {ms : List Mark}, List.Forall₂ (fun slot m => markOf slots slot = some m) l ms →
      marksOf slots l = some ms := by
    intro l ms hl
    induction hl with
    | nil => rfl
    | cons hslot _ ih => simp [marksOf, hslot, ih]
  exact hmarks hall

/-- **The list is filled in** with the marks of the text, or the pass fails for the same reason as ever. -/
theorem fillIn_agrees {t : Text} (ht : t.Encoded) {ms : List Marker} (hms : ∀ m ∈ ms, m.Placed t) :
    ∃ x, fillIn t ms = answered x ∧
      Agree (fun slots marks => Lined slots (marks.map .paired)) x (Regen.pairMarkers t ms) := by
  have hstart : Tracks t { slots := ms.map .ofMarker } {} ms :=
    ⟨.of_markers ms, rfl, rfl, rfl, .none, rfl, by simp⟩
  obtain ⟨x, hrun, hagree⟩ := run_agrees ht hstart hms
  rw [fillIn, show (0 : Nat) = nextPlace {} from rfl, hrun, Regen.pairMarkers]
  generalize Pairing.run t {} ms = y at hagree ⊢
  cases hagree with
  | error e => exact ⟨_, rfl, .error e⟩
  | @ok w p htracks =>
    have hstack := htracks.stack
    have hlined := htracks.lined
    simp only [answered_ok_bind]
    cases hp : p.stack with
    | nil =>
      rw [hp] at hstack hlined
      refine ⟨.ok w.slots, by rw [hstack]; rfl, ?_⟩
      simp only [bind, Except.bind, hp]
      exact .ok (by simpa [cells] using hlined)
    | cons top outer =>
      have hcloser := (htracks.placed top (by simp [hp])).closer
      rw [hp] at hstack
      refine ⟨Regen.failAt (.unendedBlock top.marker.quotedEnd) (Location.ofOffset t
        (top.marker.closeEnd - top.marker.tokens.closer.length) top.marker.tokens.closer.length), ?_, ?_⟩
      · simp only [hstack, places, htracks.slot_top hp, lift_some_bind, Slot.ofMarker, minus_eq hcloser, locate_eq ht,
          failAt_some]
      · simp only [bind, Except.bind, hp]
        exact .error _

/-- **Pairing the markers of a text is never out of range.** -/
theorem pairMarkers_eq {t : Text} (ht : t.Encoded) {ms : List Marker} (hms : ∀ m ∈ ms, m.Placed t) :
    pairMarkers t ms = answered (Regen.pairMarkers t ms) := by
  obtain ⟨x, hfill, hagree⟩ := fillIn_agrees ht hms
  rw [pairMarkers, hfill]
  cases hmarks : Regen.pairMarkers t ms with
  | error e =>
    rw [hmarks] at hagree
    cases hagree
    rfl
  | ok marks =>
    rw [hmarks] at hagree
    cases hagree with
    | ok hlined =>
      have hends := marksOf_eq hlined fun m hm => (pairMarkers_eq_ok_iff.1 hmarks).1.isEnd_eq_false_iff hm
      rw [answered_ok_bind, hends]
      rfl

end Regen.Checked
