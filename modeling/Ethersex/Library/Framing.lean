import Mathlib

/-!
# Escaped framing

Frames on a stream of items.  A frame opens with an escape and a start code and closes with an
escape and a stop code; an escape in its content is doubled.  A reader with one bit of memory
turns the stream back into markers and content.
-/

namespace Ethersex.Library

/-- What a stream carries: the two markers and the items between them. -/
inductive Symbol (α : Type*) where
  | start
  | stop
  | item (value : α)
deriving DecidableEq

/-- The escape and the two codes that make a marker with it. -/
structure Codes (α : Type*) where
  escape : α
  start : α
  stop : α
  start_ne_escape : start ≠ escape
  stop_ne_escape : stop ≠ escape
  stop_ne_start : stop ≠ start

namespace Codes

variable {α : Type*} [DecidableEq α] (codes : Codes α)

/-- Read one item: whether an escape is open afterwards, and the symbol that it completes.  An
escape before any other item is dropped with it. -/
def read (escaped : Bool) (item : α) : Bool × Option (Symbol α) :=
  if escaped then
    if item = codes.start then (false, some .start)
    else if item = codes.stop then (false, some .stop)
    else if item = codes.escape then (false, some (.item item))
    else (false, none)
  else if item = codes.escape then (true, none)
  else (false, some (.item item))

/-- Read a stream. -/
def scan : Bool → List α → Bool × List (Symbol α)
  | escaped, [] => (escaped, [])
  | escaped, item :: rest =>
      let (next, symbol) := codes.read escaped item
      let (final, symbols) := scan next rest
      (final, symbol.toList ++ symbols)

theorem scan_append (escaped : Bool) (front back : List α) :
    codes.scan escaped (front ++ back) =
      ((codes.scan (codes.scan escaped front).1 back).1,
        (codes.scan escaped front).2 ++ (codes.scan (codes.scan escaped front).1 back).2) := by
  induction front generalizing escaped with
  | nil => rfl
  | cons item rest ih => simp only [List.cons_append, scan, ih, List.append_assoc]

theorem scan_concat (escaped : Bool) (front : List α) (item : α) :
    codes.scan escaped (front ++ [item]) =
      ((codes.read (codes.scan escaped front).1 item).1,
        (codes.scan escaped front).2 ++ (codes.read (codes.scan escaped front).1 item).2.toList) := by
  rw [scan_append]
  simp only [scan, List.append_nil]

/-- The content of a frame, escapes doubled. -/
def quoteItem (item : α) : List α :=
  if item = codes.escape then [codes.escape, codes.escape] else [item]

def quote (content : List α) : List α := content.flatMap codes.quoteItem

@[simp] theorem quote_nil : codes.quote [] = [] := rfl

@[simp] theorem quote_cons (item : α) (rest : List α) :
    codes.quote (item :: rest) = codes.quoteItem item ++ codes.quote rest := rfl

/-- A whole frame. -/
def frame (content : List α) : List α :=
  codes.escape :: codes.start :: (codes.quote content ++ [codes.escape, codes.stop])

theorem scan_quoteItem (item : α) : codes.scan false (codes.quoteItem item) = (false, [.item item]) := by
  unfold quoteItem
  split
  next same =>
      subst same
      simp [scan, read, codes.start_ne_escape.symm, codes.stop_ne_escape.symm]
  next other => simp [scan, read, other]

theorem scan_quote (content : List α) :
    codes.scan false (codes.quote content) = (false, content.map .item) := by
  induction content with
  | nil => rfl
  | cons item rest ih => rw [quote_cons, scan_append, scan_quoteItem, ih]; rfl

/-- A frame reads as its content between the markers, and leaves no escape open. -/
theorem scan_frame (content : List α) :
    codes.scan false (codes.frame content) =
      (false, .start :: (content.map .item ++ [.stop])) := by
  have opening : codes.scan false [codes.escape, codes.start] = (false, [.start]) := by
    simp [scan, read]
  have closing : codes.scan false [codes.escape, codes.stop] = (false, [.stop]) := by
    simp [scan, read, codes.stop_ne_start]
  rw [frame, show codes.escape :: codes.start :: (codes.quote content ++ [codes.escape, codes.stop]) =
      [codes.escape, codes.start] ++ (codes.quote content ++ [codes.escape, codes.stop]) from rfl,
    scan_append, opening, scan_append, scan_quote, closing]
  rfl

end Codes

end Ethersex.Library
