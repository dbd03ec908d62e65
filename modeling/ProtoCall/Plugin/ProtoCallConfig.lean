import ProtoCall.Library.CMake
import ProtoCall.Library.Pattern

namespace ProtoCall

open CMake Pattern

namespace ProtoCallConfig

def isBlank (c : Char) : Bool := c = ' ' || c = '\t'

-- `^[ \t]*service[ \t]*([^ \t]*)[ \t]*{[^{]*$`
def regex : List (Pattern.Item Char) := [
  .many isBlank, .text "service".toList, .many isBlank, .many (!isBlank ·), .many isBlank,
  .text ['{'], .many (· ≠ '{')]

-- `file(STRINGS ${file} _lines REGEX ${_regex})`, and the lines that `foreach` makes of it.
def lines (text : String) : List (List Char) :=
  expand <| join <| (strings text.toList).filter (pieces regex · |>.isSome) |>.map escape

-- `CMAKE_MATCH_1` behind `string(REGEX MATCH ${_regex} _match ${_line})`, which puts its inputs
-- together again. It is empty where there is no match.
def serviceOf (line : List Char) : List Char :=
  match pieces regex (expand line).flatten with
  | none       => []
  | some found => found.getD 3 []

-- `extract_service_names`, with the names that `foreach` makes of the list.
def extractServiceNames (text : String) : List String :=
  (expand <| join <| (lines text).flatMap (expand <| serviceOf ·)).map .ofList

-- What `file(STRINGS)` finds behind a name that the macro is given.
structure ProtoFile where
  path : String
  text : String
  deriving DecidableEq, Repr

def ProtoFile.nameWE (file : ProtoFile) : String := .ofList <| CMake.nameWE file.path.toList

structure Lists where
  commonSource  : List String := []
  serviceSource : List String := []
  proxySource   : List String := []

-- What the macro's loop appends to its lists for the code that the plugin generates from the files
-- themselves. The names are those of files in `protoc_output`.
def Lists.append (lists : Lists) (file : ProtoFile) : Lists :=
  let services := extractServiceNames file.text
  {
    commonSource  := lists.commonSource ++
      [file.nameWE ++ ".pb.cc", file.nameWE ++ "_rpc" ++ ".pb.cc"]
    serviceSource := lists.serviceSource ++ services.map (· ++ "_Dispatcher" ++ ".pb.cc")
    proxySource   := lists.proxySource ++ services.flatMap fun service =>
      [service ++ "_Proxy" ++ ".pb.cc", service ++ "_Handler" ++ ".pb.cc"]
  }

def protocallc (files : List ProtoFile) : Lists := files.foldl .append {}

-- The `OUTPUT` of the custom command.
def Lists.output (lists : Lists) : List String :=
  lists.commonSource ++ lists.serviceSource ++ lists.proxySource

-- What the regular expression stands for.
def Declares (line name : List Char) : Prop :=
  ∃ before between after rest, (∀ c ∈ before, isBlank c) ∧ (∀ c ∈ between, isBlank c) ∧
    (∀ c ∈ name, !isBlank c) ∧ (∀ c ∈ after, isBlank c) ∧ '{' ∉ rest ∧
    line = before ++ "service".toList ++ between ++ name ++ after ++ '{' :: rest

def Takes (line name : List Char) : Prop :=
  Declares (expand line).flatten name ∨ name = [] ∧ ∀ name, ¬Declares (expand line).flatten name

-- A name that comes out of the lines of a file.
def Extracts (text name : String) : Prop :=
  ∃ names, List.Forall₂ Takes (lines text) names ∧
    name.toList ∈ expand (join <| names.flatMap expand)

section Regex

variable {line name name' : List Char} {found : List (List Char)}

theorem declares_of_matches (h : Matches regex found line) : Declares line (found.getD 3 []) := by
  obtain ⟨h, rfl⟩ := h
  rw [regex] at h
  rcases h with _ | @⟨_, before, _, _, hb, h⟩
  rcases h with _ | @⟨_, service, _, _, hs, h⟩
  rcases h with _ | @⟨_, between, _, _, ht, h⟩
  rcases h with _ | @⟨_, name, _, _, hn, h⟩
  rcases h with _ | @⟨_, after, _, _, ha, h⟩
  rcases h with _ | @⟨_, brace, _, _, hc, h⟩
  rcases h with _ | @⟨_, rest, _, _, hr, h⟩
  cases h
  refine ⟨before, between, after, rest, hb, ht, hn, ha, fun hm => ?_, ?_⟩
  case refine_1 =>
    have hne := hr _ hm
    contradiction
  case refine_2 =>
    rw [Item.Accepts] at hs hc
    simp [hs, hc]

theorem ne_brace {cs : List Char} (h : '{' ∉ cs) : ∀ c ∈ cs, decide (c ≠ '{') = true := by
  intro c hc
  have hne : c ≠ '{' := by rintro rfl; exact h hc
  simpa using hne

theorem Declares.matches (h : Declares line name) :
    ∃ found, Matches regex found line ∧ found.getD 3 [] = name := by
  obtain ⟨before, between, after, rest, hb, ht, hn, ha, hr, rfl⟩ := h
  refine ⟨[before, "service".toList, between, name, after, ['{'], rest], ?_, rfl⟩
  exact {
    accepts := .cons hb <| .cons rfl <| .cons ht <| .cons hn <| .cons ha <| .cons rfl <|
      .cons (ne_brace hr) .nil
    flatten := by simp
  }

theorem takeWhile_dropWhile {p : Char → Bool} {before name after : List Char}
    (hb : ∀ c ∈ before, p c) (hn : ∀ c ∈ name, !p c) (ha : ∀ c ∈ after, p c) :
    ((before ++ (name ++ after)).dropWhile p).takeWhile (!p ·) = name := by
  rw [List.dropWhile_append_of_pos hb]
  cases name
  case nil =>
    rw [List.nil_append, List.dropWhile_eq_nil_iff.mpr ha]
    rfl
  case cons c name =>
    have hc := hn c List.mem_cons_self
    have hd : (c :: name ++ after).dropWhile p = c :: name ++ after :=
      List.dropWhile_cons_of_neg (by simpa using hc)
    rw [hd, List.takeWhile_append_of_pos hn]
    cases after
    case nil  => simp
    case cons => simp [ha]

-- Blanks do not belong to a name, so there is only one of them in a line.
theorem Declares.eq (h : Declares line name) :
    name = ((((line.rdropWhile (· ≠ '{')).dropLast.dropWhile isBlank).drop 7).dropWhile
      isBlank).takeWhile (!isBlank ·) := by
  obtain ⟨before, between, after, rest, hb, ht, hn, ha, hr, rfl⟩ := h
  have hr' := ne_brace fun hc => hr (List.mem_reverse.mp hc)
  have hd (pre : List Char) : ((pre ++ '{' :: rest).rdropWhile (· ≠ '{')).dropLast = pre := by
    simp only [List.rdropWhile, List.reverse_append, List.reverse_cons, List.append_assoc,
      List.dropWhile_append_of_pos hr']
    simp
  rw [hd]
  simp only [List.append_assoc, List.dropWhile_append_of_pos hb]
  exact (takeWhile_dropWhile ht hn ha).symm

theorem Declares.unique (h : Declares line name) (h' : Declares line name') : name = name' :=
  h.eq.trans h'.eq.symm

theorem takes_serviceOf : Takes line (serviceOf line) := by
  rw [serviceOf]
  cases h : pieces regex (expand line).flatten
  case some found => exact .inl <| declares_of_matches <| matches_of_pieces h
  case none       =>
    refine .inr ⟨rfl, fun name hd => ?_⟩
    obtain ⟨found, hm, -⟩ := hd.matches
    exact pieces_eq_none.mp h found hm

theorem Takes.eq (h : Takes line name) : serviceOf line = name := by
  have hs : Takes line (serviceOf line) := takes_serviceOf
  rcases h with hd | ⟨rfl, hn⟩ <;> rcases hs with hd' | ⟨he, hn'⟩
  case inl.inl => exact hd'.unique hd
  case inl.inr => exact absurd hd (hn' name)
  case inr.inl => exact absurd hd' (hn _)
  case inr.inr => exact he

theorem forall₂_takes {lines names : List (List Char)} :
    List.Forall₂ Takes lines names ↔ lines.map serviceOf = names where
  mp h := by
    induction h
    case nil          => rfl
    case cons ht _ hi => rw [List.map_cons, ht.eq, hi]
  mpr := by
    rintro rfl
    exact List.forall₂_map_right_iff.mpr <| List.forall₂_same.mpr fun _ _ => takes_serviceOf

end Regex

theorem mem_extractServiceNames {text name : String} : name ∈ extractServiceNames text ↔
    name.toList ∈ expand (join <| (lines text).flatMap (expand <| serviceOf ·)) := by
  have hs (c : List Char) : String.ofList c = name ↔ c = name.toList := by
    rw [← String.toList_inj, String.toList_ofList]
  simp only [extractServiceNames, List.mem_map, hs, exists_eq_right]

theorem extracts_iff {text name : String} :
    Extracts text name ↔ name ∈ extractServiceNames text := by
  simp only [Extracts, forall₂_takes, mem_extractServiceNames, exists_eq_left', List.flatMap_map]

section Plain

variable {text : String} {line name : List Char}

theorem isSome_pieces_iff : (pieces regex line).isSome ↔ ∃ name, Declares line name where
  mp h  := ⟨_, declares_of_matches <| matches_of_pieces <| Option.get_mem h⟩
  mpr h := by
    obtain ⟨name, found, hm, -⟩ := h.imp fun _ hd => hd.matches
    exact isSome_pieces hm

theorem Declares.subset (h : Declares line name) : name ⊆ line := by
  obtain ⟨before, between, after, rest, -, -, -, -, -, rfl⟩ := h
  intro c hc
  simp [hc]

theorem lines_of_plain (h : ∀ line ∈ strings text.toList, Plain line) :
    lines text = (strings text.toList).filter (pieces regex · |>.isSome) := by
  apply expand_join_escape
  intro line hl
  obtain ⟨hs, hm⟩ := List.mem_filter.mp hl
  refine ⟨h line hs, ?_⟩
  rintro rfl
  contradiction

-- Semicolons are lost when the line is put together again.
theorem takes_of_plain (h : Plain line) (hn : name ≠ []) :
    Takes line name ↔ Declares (line.filter (· ≠ ';')) name := by
  rw [Takes, expand, flatten_expandFrom h]
  simp [hn]

theorem serviceOf_subset : serviceOf line ⊆ (expand line).flatten := by
  have ht : Takes line (serviceOf line) := takes_serviceOf
  rcases ht with hd | ⟨he, -⟩
  case inl => exact hd.subset
  case inr =>
    rw [he]
    exact List.nil_subset _

theorem plain_of_subset (h : Plain line) (hs : name ⊆ line.filter (· ≠ ';')) :
    Plain name ∧ ';' ∉ name := by
  refine ⟨fun c hc => h c (List.mem_filter.mp <| hs hc).left, fun hc => ?_⟩
  have hne := (List.mem_filter.mp <| hs hc).right
  contradiction

theorem mem_expand_serviceOf (h : Plain line) : name ∈ expand (serviceOf line) ↔
    name ≠ [] ∧ Declares (line.filter (· ≠ ';')) name := by
  have hs : serviceOf line ⊆ _ := serviceOf_subset
  rw [expand, flatten_expandFrom h, List.nil_append] at hs
  obtain ⟨hp, hs⟩ := plain_of_subset h hs
  have ht : serviceOf line = name ↔ Takes line name := ⟨(· ▸ takes_serviceOf), Takes.eq⟩
  rw [← escape_of_notMem hs, expand_escape hp]
  constructor
  case mp =>
    split
    case isTrue => intro; contradiction
    case isFalse hn =>
      intro hm
      cases List.mem_singleton.mp hm
      exact ⟨hn, (takes_of_plain h hn).mp takes_serviceOf⟩
  case mpr =>
    rintro ⟨hn, hd⟩
    rw [((takes_of_plain h hn).mpr hd).eq, if_neg hn]
    exact List.mem_cons_self

-- In a file without brackets and backslashes each name comes out of a line of its own.
theorem extracts_of_plain {name : String} (h : ∀ line ∈ strings text.toList, Plain line) :
    Extracts text name ↔ name ≠ "" ∧ ∃ line ∈ strings text.toList,
      (∃ name, Declares line name) ∧ Declares (line.filter (· ≠ ';')) name.toList := by
  have hl (line : List Char) :
      line ∈ lines text ↔ line ∈ strings text.toList ∧ ∃ name, Declares line name := by
    rw [lines_of_plain h, List.mem_filter]
    exact and_congr_right fun _ => isSome_pieces_iff
  have hn : ∀ name ∈ (lines text).flatMap (expand <| serviceOf ·),
      Plain name ∧ ';' ∉ name ∧ name ≠ [] := by
    intro name hm
    obtain ⟨line, hm, hn⟩ := List.mem_flatMap.mp hm
    have hp := h line ((hl line).mp hm).left
    obtain ⟨hn, hd⟩ := (mem_expand_serviceOf hp).mp hn
    obtain ⟨hp, hs⟩ := plain_of_subset hp hd.subset
    exact ⟨hp, hs, hn⟩
  rw [extracts_iff, mem_extractServiceNames, expand_join hn, List.mem_flatMap]
  constructor
  case mp =>
    rintro ⟨line, hm, hn⟩
    obtain ⟨hs, hd⟩ := (hl line).mp hm
    obtain ⟨hn, ht⟩ := (mem_expand_serviceOf (h line hs)).mp hn
    exact ⟨by simpa using hn, line, hs, hd, ht⟩
  case mpr =>
    rintro ⟨hn, line, hs, hd, ht⟩
    refine ⟨line, (hl line).mpr ⟨hs, hd⟩, (mem_expand_serviceOf (h line hs)).mpr ⟨?_, ht⟩⟩
    simpa using hn

end Plain
end ProtoCallConfig
end ProtoCall
