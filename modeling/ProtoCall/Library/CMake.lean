import Mathlib.Data.List.DropRight

-- Commands of CMake on the characters of its variables, where a list is the text of its elements
-- with semicolons in between.
namespace CMake

-- `file(STRINGS)`: a string ends with its line and with anything that is not printable.
def isPrintable (c : Char) : Bool := c = '\t' || (' ' ≤ c && c ≤ '~')

def stringsFrom (current : List Char) : List Char → List (List Char)
  | []      => if current = [] then [] else [current]
  | c :: cs =>
    if c = '\r' then
      stringsFrom current cs
    else if isPrintable c then
      stringsFrom (current ++ [c]) cs
    else if c = '\n' ∨ current ≠ [] then
      current :: stringsFrom [] cs
    else
      stringsFrom [] cs

def strings (text : List Char) : List (List Char) := stringsFrom [] text

def escape (element : List Char) : List Char :=
  element.flatMap fun c => if c = ';' then ['\\', ';'] else [c]

def join (elements : List (List Char)) : List Char := [';'].intercalate elements

-- The arguments that an unquoted reference stands for. A semicolon between square brackets does not
-- separate them, and neither does one behind a backslash; there are no empty ones.
def expandFrom (nesting : ℤ) (current : List Char) : List Char → List (List Char)
  | []                => if current = [] then [] else [current]
  | '\\' :: ';' :: cs => expandFrom nesting (current ++ [';']) cs
  | '[' :: cs         => expandFrom (nesting + 1) (current ++ ['[']) cs
  | ']' :: cs         => expandFrom (nesting - 1) (current ++ [']']) cs
  | ';' :: cs         =>
    if nesting ≠ 0 then
      expandFrom nesting (current ++ [';']) cs
    else if current = [] then
      expandFrom 0 [] cs
    else
      current :: expandFrom 0 [] cs
  | c :: cs           => expandFrom nesting (current ++ [c]) cs

def expand (list : List Char) : List (List Char) := expandFrom 0 [] list

example : expand "a;b\\;c;;[d;e]".toList = ["a".toList, "b;c".toList, "[d;e]".toList] := by
  decide +kernel

-- There is nothing in a plain text but semicolons that means anything to `expand`.
def Plain (text : List Char) : Prop := ∀ c ∈ text, c ∉ ['\\', '[', ']']

variable {text current rest : List Char} {elements : List (List Char)}

theorem plain_cons {c : Char} :
    Plain (c :: text) ↔ (c ≠ '\\' ∧ c ≠ '[' ∧ c ≠ ']') ∧ Plain text := by
  simp [Plain]

theorem expandFrom_escape (h : Plain text) :
    expandFrom 0 current (escape text ++ rest) = expandFrom 0 (current ++ text) rest := by
  induction text generalizing current
  case nil => simp [escape]
  case cons c text hi =>
    obtain ⟨hc, hp⟩ := plain_cons.mp h
    rw [escape, List.flatMap_cons, ← escape]
    split
    case isTrue hs  => simp [expandFrom, hi hp, hs]
    case isFalse hs => simp [expandFrom, hi hp, hc]

theorem expand_escape (h : Plain text) :
    expand (escape text) = if text = [] then [] else [text] := by
  have he : expandFrom 0 [] (escape text ++ []) = _ := expandFrom_escape h
  rwa [List.append_nil, List.nil_append, expandFrom] at he

-- CMake takes a list of plain texts apart in the way that it has been put together.
theorem expand_join_escape (h : ∀ element ∈ elements, Plain element ∧ element ≠ []) :
    expand (join (elements.map escape)) = elements := by
  induction elements
  case nil => rfl
  case cons element elements hi =>
    have he := h element List.mem_cons_self
    cases elements
    case nil => simp [join, expand_escape he.left, he.right]
    case cons next elements =>
      have hj : join ((element :: next :: elements).map escape) =
          escape element ++ ';' :: join ((next :: elements).map escape) := by
        simp [join, List.intercalate]
      have hl := hi fun element hm => h element (List.mem_cons_of_mem _ hm)
      rw [hj, expand, expandFrom_escape he.left, List.nil_append, expandFrom,
        if_neg (not_not.mpr rfl), if_neg he.right]
      exact congrArg (element :: ·) hl

theorem escape_of_notMem (h : ';' ∉ text) : escape text = text := by
  refine (List.flatMap_congr fun c hc => ?_).trans <| List.flatMap_singleton' text
  have hs : c ≠ ';' := by rintro rfl; exact h hc
  exact if_neg hs

theorem expand_join (h : ∀ element ∈ elements, Plain element ∧ ';' ∉ element ∧ element ≠ []) :
    expand (join elements) = elements := by
  have he : elements.map escape = elements :=
    List.map_congr_left (fun element hm => escape_of_notMem (h element hm).right.left) |>.trans <|
      List.map_id elements
  have hj := expand_join_escape fun element hm => ⟨(h element hm).left, (h element hm).right.right⟩
  rwa [he] at hj

theorem flatten_expandFrom (h : Plain text) :
    (expandFrom 0 current text).flatten = current ++ text.filter (· ≠ ';') := by
  induction text generalizing current
  case nil => by_cases hc : current = [] <;> simp [expandFrom, hc]
  case cons c text hi =>
    obtain ⟨hc, hp⟩ := plain_cons.mp h
    by_cases hs : c = ';'
    case pos => by_cases hn : current = [] <;> simp [expandFrom, hi hp, hs, hn]
    case neg => simp [expandFrom, hi hp, hs, hc]

-- `get_filename_component(NAME_WE)`
def nameWE (path : List Char) : List Char := (path.rtakeWhile (· ≠ '/')).takeWhile (· ≠ '.')

example : nameWE "src/query.v1.proto".toList = "query".toList := by
  decide +kernel

end CMake
