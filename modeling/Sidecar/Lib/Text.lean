/-!
# Suffixes, replacements and cuts
-/

namespace Text

def endsWith (s suffix : String) : Bool := suffix.toList.isSuffixOf s.toList

/-- `str::strip_suffix`. -/
def stripSuffix (s suffix : String) : Option String :=
  if endsWith s suffix then
    some (String.ofList (s.toList.take (s.toList.length - suffix.toList.length)))
  else none

/-- `str::strip_prefix`. -/
def stripPrefix (s start : String) : Option String :=
  if start.toList.isPrefixOf s.toList
    then some (String.ofList (s.toList.drop start.toList.length)) else none

theorem stripPrefix_append (start s : String) : stripPrefix (start ++ s) start = some s := by
  have hstart : start.toList.isPrefixOf (start ++ s).toList = true := by
    rw [String.toList_append, List.isPrefixOf_iff_prefix]
    exact List.prefix_append _ _
  rw [stripPrefix, if_pos hstart, String.toList_append, List.drop_left, String.ofList_toList]

/-- `str::replace` of a character. -/
def replace (s : String) (c : Char) (r : String) : String :=
  String.ofList (s.toList.flatMap fun x => if x = c then r.toList else [x])

@[simp] theorem toList_replace (s : String) (c : Char) (r : String) :
    (replace s c r).toList = s.toList.flatMap fun x => if x = c then r.toList else [x] :=
  String.toList_ofList

/-- `str::split_once`: what is before and after the first `c`. -/
def splitOnce (s : String) (c : Char) : Option (String × String) :=
  if c ∈ s.toList then
    some (String.ofList (s.toList.takeWhile (· ≠ c)),
      String.ofList (s.toList.dropWhile (· ≠ c)).tail)
  else none

/-- `str::split` at a character. -/
def split (s : String) (c : Char) : List String := (s.toList.splitOn c).map String.ofList

/-- `char::is_whitespace`. -/
def isWhitespace (c : Char) : Bool :=
  let n := c.toNat
  (9 ≤ n && n ≤ 13) || n == 0x20 || n == 0x85 || n == 0xA0 || n == 0x1680 ||
  (0x2000 ≤ n && n ≤ 0x200A) ||
    n == 0x2028 || n == 0x2029 || n == 0x202F || n == 0x205F || n == 0x3000

/-- `str::trim`. -/
def trim (s : String) : String :=
  String.ofList ((s.toList.dropWhile isWhitespace).reverse.dropWhile isWhitespace).reverse

end Text
