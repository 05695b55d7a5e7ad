import Understudy.Bytes.Head
import Understudy.Text.LossyUtf8

/-!
What a reader of class files is asked for, one request after the other. The same requests can be
made of a cursor and of a place that is counted in words.
-/

namespace Understudy

/-- What a reader can be asked for: a number of so many bytes, a text with its length in front, a
run of bytes, or to pass over some bytes. -/
inductive Cursor.Request where
  | number (width : UInt64)
  | text
  | bytes (count : UInt64)
  | skip (count : UInt64)
  deriving DecidableEq, Repr

/-- What a reader answers. -/
inductive Cursor.Reply where
  | number (value : Nat)
  | text (value : String)
  | bytes (value : Bytes)
  | done
  deriving DecidableEq, Repr

/-- One request made of a cursor. -/
def Cursor.perform (c : Cursor) : Request → Answer Reply
  | .number width => (c.number width.toNat).map (·.map .number) id
  | .text => c.counted.map (·.map fun bytes => .text (Utf8.decodeLossy bytes)) id
  | .bytes count => (c.take count.toNat).map (·.map .bytes) id
  | .skip count => (c.skip count.toNat).map (·.map fun _ => .done) id

/-- Where a cursor stands after some requests, whatever came of them. -/
def Cursor.after (c : Cursor) (requests : List Request) : Cursor :=
  requests.foldl (fun c request => (c.perform request).2) c

/-- One request made where the place is counted in words. -/
def Head.perform (h : Head) : Cursor.Request → Except Error Cursor.Reply × Head
  | .number width => (h.read width).map (·.map fun value => .number value.toNat) id
  | .text => h.counted.map (·.map fun bytes => .text (Utf8.decodeLossy bytes)) id
  | .bytes count => (h.take count).map (·.map .bytes) id
  | .skip count => (h.skip count).map (·.map fun _ => .done) id

/-- The place after some requests. -/
def Head.after (h : Head) (requests : List Cursor.Request) : Head :=
  requests.foldl (fun h request => (h.perform request).2) h

end Understudy
