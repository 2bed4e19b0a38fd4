import StreamPipeline.Parse.Filter

/-!
# JSON Lines mode

`log_parse` takes the lines of its standard input, trims each, and prints the ones that match.
A line that is no object is skipped with a warning.
-/

namespace StreamPipeline.Parse

open Codec

/-- `trim_line`. -/
def trimLine (line : Bytes) : CStr :=
  let start := (CStr.ofBytes line).bytes.dropWhile isSpace
  { bytes := (start.reverse.dropWhile isSpace).reverse
    nulFree := by
      intro member
      have inside := (List.dropWhile_sublist isSpace).subset (List.mem_reverse.mp member)
      have whole := (List.dropWhile_sublist isSpace).subset (List.mem_reverse.mp inside)
      exact (CStr.ofBytes line).nulFree whole }

/-- `log_parse_main` in JSON Lines mode: what it prints. -/
def logParseJsonl (cjson : CJson) (printItem : Item → Option CStr) (filter : Option Filter)
    (stdin : Bytes) : Bytes :=
  (lines stdin).flatMap fun line =>
    match logFilterMatchJsonl cjson printItem (trimLine line) filter with
    | some true => (trimLine line).bytes ++ [lf]
    | _ => []

/-- A text between bytes that are no white space is what remains of its line. -/
theorem trimLine_body {body : Bytes} {first last : UInt8} {inner : Bytes}
    (shape : body = first :: (inner ++ [last])) (front : isSpace first = false)
    (back : isSpace last = false) (live : 0 ∉ body) :
    (trimLine (body ++ [lf])).bytes = body := by
  have whole : (CStr.ofBytes (body ++ [lf])).bytes = body ++ [lf] := by
    apply CStr.bytes_ofBytes
    rw [List.mem_append, not_or]
    exact ⟨live, by decide⟩
  have feed : isSpace lf = true := by decide
  have starts : (body ++ [lf]).dropWhile isSpace = body ++ [lf] := by
    rw [shape, List.cons_append, List.dropWhile_cons_of_neg (by simp [front])]
  have ends : (body ++ [lf]).reverse.dropWhile isSpace = body.reverse := by
    rw [List.reverse_append, List.reverse_singleton, List.singleton_append,
      List.dropWhile_cons_of_pos feed, shape, List.reverse_cons, List.reverse_append,
      List.reverse_singleton, List.singleton_append, List.cons_append,
      List.dropWhile_cons_of_neg (by simp [back])]
  rw [trimLine]
  simp only [whole, starts, ends, List.reverse_reverse]

end StreamPipeline.Parse
