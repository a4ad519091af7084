namespace RvToolkit

/-- Source text and everything cut from it: a list of code points. -/
abbrev Text := List Char

namespace Text

def ofInt (i : Int) : Text :=
  match i with
  | .ofNat n => Nat.toDigits 10 n
  | .negSucc n => '-' :: Nat.toDigits 10 (n + 1)

def occurs (pat : Text) : Text → Bool
  | [] => pat.isEmpty
  | c :: cs => pat.isPrefixOf (c :: cs) || occurs pat cs

/-- Replaces the occurrences of a non-empty pattern from left to right; the first argument counts
the characters of the last occurrence that are still to be passed over. -/
def replaceFrom (pat new : Text) : Nat → Text → Text
  | _, [] => []
  | k + 1, _ :: cs => replaceFrom pat new k cs
  | 0, c :: cs =>
      if pat.isPrefixOf (c :: cs) then new ++ replaceFrom pat new (pat.length - 1) cs
      else c :: replaceFrom pat new 0 cs

/-- Replaces every occurrence of `pat`; the empty pattern occurs before and after every character. -/
def replace (pat new t : Text) : Text :=
  if pat.isEmpty then new ++ t.flatMap (fun c => c :: new) else replaceFrom pat new 0 t

def join (sep : Text) : List Text → Text
  | [] => []
  | [t] => t
  | t :: u :: ts => t ++ sep ++ join sep (u :: ts)

/-- Cuts the text into pieces of `n + 1` characters, the last one shorter if need be; the first
argument counts what the current piece still takes. -/
def chunksFrom (n : Nat) : Nat → Text → Text → List Text
  | _, [], [] => []
  | _, cur, [] => [cur.reverse]
  | 0, cur, c :: cs => cur.reverse :: chunksFrom n n [c] cs
  | k + 1, cur, c :: cs => chunksFrom n k (c :: cur) cs

def chunks (n : Nat) (t : Text) : List Text := chunksFrom (n - 1) n [] t

def chomp (t : Text) : Text := if t.getLast? = some '\n' then t.dropLast else t

def cutAt (sep : Char) : Text → Option (Text × Text)
  | [] => none
  | c :: cs => if c = sep then some ([], cs) else (cutAt sep cs).map fun p => (c :: p.1, p.2)

def le : Text → Text → Bool
  | [], _ => true
  | _ :: _, [] => false
  | c :: cs, d :: ds => if c = d then le cs ds else c.toNat < d.toNat

def padLeft (width : Nat) (fill : Char) (t : Text) : Text :=
  List.replicate (width - t.length) fill ++ t

def padRight (width : Nat) (fill : Char) (t : Text) : Text :=
  t ++ List.replicate (width - t.length) fill

end Text

end RvToolkit
