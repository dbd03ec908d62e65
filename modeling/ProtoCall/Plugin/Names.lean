import ProtoCall.Library.Occurrence
import ProtoCall.Plugin.Inserts
import ProtoCall.Plugin.Signature

namespace ProtoCall

open Occurrence

section Find

variable {search str : List Char} {pieces : List (List Char)} {n fuel : ℕ}

theorem find_eq_some : find search str = some n ↔ First search str n := by
  induction str generalizing n
  case nil =>
    cases n
    case zero   => simp [find, First.zero_iff]
    case succ n =>
      have hf : ¬First search [] (n + 1) := fun h => h.before 0 n.succ_pos h.found
      simp [find, hf]
  case cons c str hi =>
    rw [find]
    by_cases hp : search <+: c :: str
    case pos =>
      have hz := First.zero_iff.mpr hp
      rw [if_pos (List.isPrefixOf_iff_prefix.mpr hp), Option.some_inj]
      exact ⟨fun he => he ▸ hz, hz.unique⟩
    case neg =>
      rw [if_neg (hp ∘ List.isPrefixOf_iff_prefix.mp)]
      cases n
      case zero   => simp [First.zero_iff, hp]
      case succ n => simp [First.succ_iff, hp, hi]

theorem find_eq_none : find search str = none ↔ ¬search <:+: str := by
  rw [← find_isSome, Option.not_isSome_iff_eq_none]

-- What has been written is left of what has yet to be read, and it is not searched again.
theorem replaceLoop_append (replacement done : List Char) (h : Split search str pieces)
    (hs : search ≠ []) (hf : str.length < fuel) :
    replaceLoop search replacement fuel (done ++ str) done.length =
      some (done ++ replacement.intercalate pieces) := by
  induction h generalizing done fuel
  case last str hn =>
    cases fuel
    case zero      => contradiction
    case succ fuel =>
      rw [replaceLoop, List.drop_left, find_eq_none.mpr hn, List.intercalate_singleton]
  case cut pre post pieces hp ht hi =>
    cases fuel
    case zero      => contradiction
    case succ fuel =>
      have hl : post.length < fuel := (length_lt hs).trans_le (Nat.le_of_lt_succ hf)
      rw [replaceLoop, List.drop_left, find_eq_some.mpr hp]
      have hd : (done ++ (pre ++ (search ++ post))).take (done.length + pre.length) =
          done ++ pre := by
        rw [← List.append_assoc, ← List.length_append, List.take_left]
      have hr : (done ++ (pre ++ (search ++ post))).drop
          (done.length + pre.length + search.length) = post := by
        rw [← List.append_assoc, ← List.append_assoc, ← List.length_append, ← List.length_append,
          List.drop_left]
      have hi := hi (done ++ pre ++ replacement) hl
      dsimp only
      rw [hd, hr, ← List.length_append, ← List.length_append, hi,
        List.intercalate_cons_of_ne_nil ht.ne_nil]
      simp only [List.append_assoc]

theorem replace_eq_intercalate (replacement : List Char) (h : Split search str pieces)
    (hs : search ≠ []) :
    replace str search replacement = replacement.intercalate pieces := by
  have hr := replaceLoop_append replacement [] h hs str.length.lt_add_one
  simp only [List.nil_append, List.length_nil] at hr
  rw [replace, hr, Option.getD_some]

-- The loop comes to an end, and `str` is cut at the occurrences of `search` and put together again.
theorem replace_splits {replacement : List Char} (hs : search ≠ []) :
    ∃ pieces, Split search str pieces ∧ (∀ fuel > str.length,
      replaceLoop search replacement fuel str 0 = some (replacement.intercalate pieces)) ∧
    replace str search replacement = replacement.intercalate pieces := by
  obtain ⟨pieces, h⟩ := Split.exists str hs
  refine ⟨pieces, h, ?_, replace_eq_intercalate replacement h hs⟩
  intro fuel hf
  simpa using replaceLoop_append replacement [] h hs hf

theorem replace_splits_dots : ∃ pieces, Split ".".toList "a.b.c".toList pieces ∧
    (∀ fuel > 5,
      replaceLoop ".".toList "..".toList fuel "a.b.c".toList 0 =
        some ("..".toList.intercalate pieces)) ∧
    replace "a.b.c".toList ".".toList "..".toList = "..".toList.intercalate pieces :=
  replace_splits (by decide)

end Find

-- A name without a leading `external.`, and with `::` in the place of dots.
def stripExternal (name : String) : String :=
  if startsWith "external." name then substr name 9 else name

def dotsToColons (name : String) : String :=
  .ofList (name.toList.flatMap fun c => if c = '.' then "::".toList else [c])

-- It is only at the start of a name that an `external.` is taken off.
structure StripsLeading (name : String) : Prop where
  removed : RpcGenerator.removeExtern name = stripExternal name
  «class» : externalTypeToClass name = dotsToColons (stripExternal name)

section External

variable {name : String}

theorem externalTypeToClass_eq :
    externalTypeToClass name = dotsToColons (RpcGenerator.removeExtern name) := by
  have hc (cls : List Char) :
      .ofList (replace cls ".".toList "::".toList) = dotsToColons (.ofList cls) := by
    have hs : ".".toList ≠ [] := by decide
    obtain ⟨pieces, h⟩ := Split.exists cls hs
    rw [replace_eq_intercalate _ h hs, dotsToColons, String.toList_ofList (l := cls)]
    exact congrArg String.ofList h.intercalate_eq_flatMap
  exact hc _

theorem removeExtern_eq_stripExternal :
    RpcGenerator.removeExtern name = stripExternal name ↔
      ("external.".toList <:+: name.toList → startsWith "external." name) := by
  rw [stripExternal, RpcGenerator.removeExtern, substr]
  by_cases hi : "external.".toList <:+: name.toList
  case neg =>
    have hs : ¬startsWith "external." name := by
      intro hs
      exact hi (List.isPrefixOf_iff_prefix.mp hs).isInfix
    rw [if_neg (hi ∘ find_isSome.mp), if_neg hs, String.ofList_toList]
    exact iff_of_true rfl fun h => absurd h hi
  case pos =>
    have hd : name.toList.drop "external.".toList.length ≠ name.toList := by
      intro he
      have hl := congrArg List.length he
      have hi := hi.length_le
      rw [List.length_drop] at hl
      simp only [String.reduceToList, List.length_cons, List.length_nil] at hl hi
      omega
    rw [if_pos (find_isSome.mpr hi)]
    by_cases hs : startsWith "external." name
    case pos => simp [hs]
    case neg =>
      have hne : String.ofList (name.toList.drop "external.".toList.length) ≠ name := by
        intro he
        exact hd <| by rw [← String.toList_ofList (l := name.toList.drop _), he]
      rw [if_neg hs]
      exact iff_of_false hne fun h => hs (h hi)

-- Just the names that have an `external.` only further on lose something else.
theorem stripsLeading_iff : StripsLeading name ↔
    ("external.".toList <:+: name.toList → startsWith "external." name) where
  mp h  := removeExtern_eq_stripExternal.mp h.removed
  mpr h := by
    have hr := removeExtern_eq_stripExternal.mpr h
    exact ⟨hr, externalTypeToClass_eq.trans (congrArg dotsToColons hr)⟩

theorem not_stripsLeading : ¬StripsLeading "my_external.Inner" := by
  intro h
  exact absurd h.removed (by decide)

end External

section Decomposition

variable {type : List Char} {pieces : List (List Char)} {fuel : ℕ}

theorem extractNamespacesLoop_eq (h : Split "::".toList type pieces) (hf : type.length < fuel) :
    extractNamespacesLoop fuel type = pieces.dropLast.map .ofList := by
  induction h generalizing fuel
  case last type hn =>
    cases fuel
    case zero      => contradiction
    case succ fuel =>
      rw [extractNamespacesLoop, find_eq_none.mpr hn]
      rfl
  case cut pre post pieces hp ht hi =>
    cases fuel
    case zero      => contradiction
    case succ fuel =>
      have hl : post.length < fuel := (length_lt (by decide)).trans_le (Nat.le_of_lt_succ hf)
      rw [extractNamespacesLoop, find_eq_some.mpr hp, List.dropLast_cons_of_ne_nil ht.ne_nil,
        List.map_cons, ← hi hl]
      simp

theorem externalTypeToHeaderPathLoop_eq (header : String) (h : Split ".".toList type pieces)
    (hf : type.length < fuel) : externalTypeToHeaderPathLoop fuel header type =
      header ++ .join (pieces.dropLast.map fun piece => (String.ofList piece).toLower ++ "/") := by
  induction h generalizing fuel header
  case last type hn =>
    cases fuel
    case zero      => contradiction
    case succ fuel =>
      rw [externalTypeToHeaderPathLoop, find_eq_none.mpr hn]
      simp
  case cut pre post pieces hp ht hi =>
    cases fuel
    case zero      => contradiction
    case succ fuel =>
      have hl : post.length < fuel := (length_lt (by decide)).trans_le (Nat.le_of_lt_succ hf)
      rw [externalTypeToHeaderPathLoop, find_eq_some.mpr hp, List.dropLast_cons_of_ne_nil ht.ne_nil,
        List.map_cons, String.join_cons]
      have hd : (pre ++ (".".toList ++ post)).drop (pre.length + 1) = post := by
        rw [← List.append_assoc]
        exact List.drop_left' (by simp)
      dsimp only
      rw [List.take_left, hd, hi _ hl]
      simp only [String.append_assoc]

variable {names : List String}

theorem split_dots (hn : ∀ name ∈ names, '.' ∉ name.toList) (hp : names ≠ []) :
    Split ['.'] (".".intercalate names).toList (names.map String.toList) := by
  rw [String.toList_intercalate]
  exact .of_intercalate (by simpa using hn) (by simpa using hp)

theorem split_colons (hn : ∀ name ∈ names, ':' ∉ name.toList) (hp : names ≠ []) :
    Split [':', ':'] ("::".intercalate names).toList (names.map String.toList) := by
  rw [String.toList_intercalate]
  exact .of_intercalate (by simpa using hn) (by simpa using hp)

theorem map_ofList_map_toList : (names.map String.toList).map String.ofList = names := by
  simp [Function.comp_def]

theorem dotsToColons_intercalate (hn : ∀ name ∈ names, '.' ∉ name.toList) (hp : names ≠ []) :
    dotsToColons (".".intercalate names) = "::".intercalate names := by
  rw [dotsToColons, ← (split_dots hn hp).intercalate_eq_flatMap, ← String.toList_intercalate,
    String.ofList_toList]

theorem extractNamespaces_intercalate (hn : ∀ name ∈ names, ':' ∉ name.toList) (hp : names ≠ []) :
    extractNamespaces ("::".intercalate names) = names.dropLast := by
  rw [extractNamespaces, extractNamespacesLoop_eq (split_colons hn hp) (Nat.lt_succ_self _),
    ← List.map_dropLast, map_ofList_map_toList]

end Decomposition

-- The name of a type in the package `external`, or in a package inside of it.
def externalType (namespaces : List String) (className : String) : String :=
  ".".intercalate ("external" :: (namespaces ++ [className]))

-- What the functions make of such a name agrees, also with the path that `addExternalInsert` puts
-- together.
structure Decomposes (type : String) (namespaces : List String) (className : String) : Prop where
  cls      : externalTypeToClass type = "::".intercalate (namespaces ++ [className])
  spaces   : extractNamespaces (externalTypeToClass type) = namespaces
  simple   : extractClassName type = className
  joined   : "::".intercalate
    (extractNamespaces (externalTypeToClass type) ++ [extractClassName type]) =
      externalTypeToClass type
  path     : externalTypeToHeaderPath type =
    ((extractNamespaces (externalTypeToClass type)).map (·.toLower ++ "/")).foldl (· ++ ·) ""
  inserted : ∀ (file : FileDescriptor) (d : Descriptor), d.fullName = type →
    (toHeader file.name).isSome → (RpcPlugin.addExternalTypeInsert file {} d).map
      (·.files.map (·.content)) = some [
        .include (externalTypeToHeaderPath type ++ className.toLower ++ ".h"),
        .externalObjectHolder ("::".intercalate (namespaces ++ [className]))]

section ExternalType

variable {namespaces : List String} {className : String}

theorem externalType_eq_append : externalType namespaces className =
    "external." ++ ".".intercalate (namespaces ++ [className]) := by
  rw [externalType, String.intercalate_cons_of_ne_nil (by simp)]
  rfl

theorem startsWith_externalType : startsWith "external." (externalType namespaces className) := by
  rw [externalType_eq_append, startsWith, List.isPrefixOf_iff_prefix, String.toList_append]
  exact List.prefix_append _ _

theorem externalTypeToClass_externalType
    (h : ∀ name ∈ namespaces ++ [className], '.' ∉ name.toList) :
    externalTypeToClass (externalType namespaces className) =
      "::".intercalate (namespaces ++ [className]) := by
  have hs : stripExternal (externalType namespaces className) =
      ".".intercalate (namespaces ++ [className]) := by
    rw [stripExternal, if_pos startsWith_externalType, substr, externalType_eq_append,
      String.toList_append]
    exact String.ofList_toList
  rw [externalTypeToClass_eq, removeExtern_eq_stripExternal.mpr fun _ => startsWith_externalType,
    hs, dotsToColons_intercalate h (by simp)]

theorem extractClassName_externalType (h : '.' ∉ className.toList) :
    extractClassName (externalType namespaces className) = className := by
  have he : externalType namespaces className =
      .ofList ((".".intercalate ("external" :: namespaces)).toList ++ '.' :: className.toList) := by
    rw [externalType, ← List.cons_append, String.intercalate_append_of_ne_nil (by simp) (by simp),
      ← String.toList_inj]
    simp
  rw [extractClassName, he, simpleName_append h, String.ofList_toList]

theorem externalTypeToHeaderPath_externalType
    (h : ∀ name ∈ namespaces ++ [className], '.' ∉ name.toList) :
    externalTypeToHeaderPath (externalType namespaces className) =
      (namespaces.map (·.toLower ++ "/")).foldl (· ++ ·) "" := by
  have ht : (externalType namespaces className).toList =
      "external".toList ++ '.' :: (".".intercalate (namespaces ++ [className])).toList := by
    rw [externalType_eq_append, String.toList_append]
    rfl
  have hf : find ".".toList (externalType namespaces className).toList = some 8 := by
    rw [ht]
    exact find_eq_some.mpr <| First.of_notMem (by decide)
  have hd : (externalType namespaces className).toList.drop 9 =
      (".".intercalate (namespaces ++ [className])).toList := by
    rw [ht]
    rfl
  have hl := (List.drop_sublist 9 (externalType namespaces className).toList).length_le
  rw [hd] at hl
  rw [externalTypeToHeaderPath, hf]
  dsimp only [Option.map_some, Option.getD_some]
  rw [hd, externalTypeToHeaderPathLoop_eq "" (split_dots h (by simp)) (Nat.lt_succ_of_le hl),
    String.empty_append, String.join_eq_foldl, ← List.map_dropLast, List.dropLast_concat,
    List.map_map]
  simp [Function.comp_def]

end ExternalType

-- The parts of a name are identifiers, so there is neither a dot nor a colon in them.
theorem externalType_decomposes {namespaces : List String} {className : String}
    (h : ∀ name ∈ namespaces ++ [className], '.' ∉ name.toList ∧ ':' ∉ name.toList) :
    Decomposes (externalType namespaces className) namespaces className := by
  have hd := fun name hn => (h name hn).left
  have hc := externalTypeToClass_externalType hd
  have hn : extractNamespaces (externalTypeToClass <| externalType namespaces className) =
      namespaces := by
    rw [hc, extractNamespaces_intercalate (fun name hn => (h name hn).right) (by simp),
      List.dropLast_concat]
  have hs : extractClassName (externalType namespaces className) = className :=
    extractClassName_externalType <| hd className (by simp)
  have hp : externalTypeToHeaderPath (externalType namespaces className) = _ :=
    externalTypeToHeaderPath_externalType hd
  constructor
  case cls    => exact hc
  case spaces => exact hn
  case simple => exact hs
  case joined => rw [hn, hs, hc]
  case path   => rw [hn, hp]
  case inserted =>
    intro file d hf ht
    have he : ¬(!startsWith "external." (externalType namespaces className)) := by
      simp [startsWith_externalType]
    rw [RpcPlugin.addExternalTypeInsert, toHeader_eq ht, hf, if_neg he]
    dsimp only
    rw [hn, hs, hp, hc]
    rfl

theorem externalType_decomposes_nested : Decomposes (externalType ["Geometry", "Mesh"] "Cell")
    ["Geometry", "Mesh"] "Cell" :=
  externalType_decomposes (by decide)

end ProtoCall
