import ProtoCall.Plugin.Inserts
import ProtoCall.Plugin.Numbers

namespace ProtoCall

structure CodeGeneratorRequest (Proto : Type) where
  parameter  : String := ""
  protoFiles : List Proto

namespace RpcPlugin

-- How `main` ends: it returns false without a response, it does not get to its end, or there is a
-- response.
inductive Exit
  | rejected
  | died
  | answered (response : CodeGeneratorResponse)
  deriving DecidableEq, Repr

variable {Proto : Type}

-- The loops in `main`, each with the pool that it works on.
def buildFiles (protobuf : Protobuf Proto) (protoFiles : List Proto) :
    Option (List FileDescriptor) :=
  protoFiles.foldlM (fun pool proto => (protobuf.buildFile pool proto).map (pool ++ [·])) []

def buildRpcFiles (protobuf : Protobuf Proto) :
    List FileDescriptor → List FileDescriptor → List (Option FileDescriptor) × List FileDescriptor
  | [], pool            => ([], pool)
  | file :: files, pool =>
    if file.services.length > 0 then
      let rpcExtensionsProto := (addRpcMessageExtensions file).snd
      let rpcExtensions := protobuf.buildRpcFile pool rpcExtensionsProto
      let (parsedFiles, pool) := buildRpcFiles protobuf files (pool ++ rpcExtensions.toList)
      (rpcExtensions :: parsedFiles, pool)
    else
      buildRpcFiles protobuf files pool

def main (protobuf : Protobuf Proto) (request : CodeGeneratorRequest Proto) : Exit :=
  match buildFiles protobuf request.protoFiles with
  | none       => .rejected
  | some files =>
    let (rpcFiles, pool) := buildRpcFiles protobuf files files
    let parsedFiles := files.map some ++ rpcFiles
    match callGenerators protobuf request.parameter parsedFiles {} with
    | none => .died
    | some (result, error, response) =>
      let response := if !result then { response with error } else response
      match addInserts pool files response with
      | none          => .died
      | some response => .answered response

-- What the loops leave in `m_fileDescriptors`, in `parsedFiles` and in the pool.
def fileDescriptors (protobuf : Protobuf Proto) (request : CodeGeneratorRequest Proto) :
    List FileDescriptor :=
  (buildFiles protobuf request.protoFiles).getD []

def parsedFiles (protobuf : Protobuf Proto) (request : CodeGeneratorRequest Proto) :
    List (Option FileDescriptor) :=
  let files := fileDescriptors protobuf request
  files.map some ++ (buildRpcFiles protobuf files files).fst

def pool (protobuf : Protobuf Proto) (request : CodeGeneratorRequest Proto) :
    List FileDescriptor :=
  let files := fileDescriptors protobuf request
  (buildRpcFiles protobuf files files).snd

-- The C++ generator refuses a file, and all the files before it are there.
def refuses (protobuf : Protobuf Proto) (parameter : String) : List (Option FileDescriptor) → Bool
  | []                 => false
  | none :: _          => false
  | some file :: files =>
    !(protobuf.generate file parameter).fst || refuses protobuf parameter files

variable {protobuf : Protobuf Proto} {request : CodeGeneratorRequest Proto} {parameter : String}
  {files : List (Option FileDescriptor)} {context : GeneratorResponseContext}

theorem callGenerators_cons {file : FileDescriptor} :
    callGenerators protobuf parameter (some file :: files) context =
      if (protobuf.generate file parameter).fst then
        callGenerators protobuf parameter files <| Prod.snd <|
          RpcGenerator.generate file (context.addFiles (protobuf.generate file parameter).snd.fst)
      else
        some (false, (protobuf.generate file parameter).snd.snd,
          context.addFiles (protobuf.generate file parameter).snd.fst) := by
  rw [callGenerators]
  rcases protobuf.generate file parameter with ⟨_ | _, opened, error⟩ <;> rfl

-- There is no other way for the generators to fail.
theorem callGenerators_eq_false :
    (∃ error next, callGenerators protobuf parameter files context = some (false, error, next)) ↔
      refuses protobuf parameter files := by
  induction files generalizing context
  case nil => simp [callGenerators, refuses]
  case cons file files hi =>
    cases file
    case none => simp [callGenerators, refuses]
    case some file =>
      rw [callGenerators_cons, refuses]
      split
      case isTrue hg  => simp [hg, hi]
      case isFalse hg => simp [hg]

theorem callGenerators_error {result : Bool} {error : String} {next : GeneratorResponseContext}
    (h : callGenerators protobuf parameter files context = some (result, error, next)) :
    next.error = context.error := by
  induction files generalizing context
  case nil => cases h; rfl
  case cons file files hi =>
    cases file
    case none => contradiction
    case some file =>
      rw [callGenerators_cons] at h
      split at h
      case isTrue  => rw [hi h, RpcGenerator.generate_eq]; rfl
      case isFalse => cases h; rfl

theorem addInserts_eq_some {response next : CodeGeneratorResponse}
    {pool files : List FileDescriptor} : addInserts pool files response = some next ↔
      (∀ file ∈ files, (toHeader file.name).isSome) ∧
        next = response.addFiles (inserts pool files) where
  mp h := by
    have hs := isSome_of_addInserts (by rw [h]; rfl)
    rw [addInserts_eq hs] at h
    exact ⟨hs, (Option.some.inj h).symm⟩
  mpr := fun ⟨hs, he⟩ => he ▸ addInserts_eq hs

-- What it takes for a response, and what it consists of.
theorem main_eq_answered {response : CodeGeneratorResponse} :
    main protobuf request = .answered response ↔
      (buildFiles protobuf request.protoFiles).isSome ∧
      (∀ file ∈ fileDescriptors protobuf request, (toHeader file.name).isSome) ∧
      ∃ result error generated,
        callGenerators protobuf request.parameter (parsedFiles protobuf request) {} =
          some (result, error, generated) ∧
        response = {
          error := if !result then some error else none
          files := generated.files ++
            inserts (pool protobuf request) (fileDescriptors protobuf request)
        } := by
  rw [main, parsedFiles, pool, fileDescriptors]
  cases buildFiles protobuf request.protoFiles
  case none => simp
  case some files =>
    simp only [Option.getD_some, Option.isSome_some, true_and]
    cases hc : callGenerators protobuf request.parameter
      (files.map some ++ (buildRpcFiles protobuf files files).fst) {}
    case none => simp
    case some val =>
      obtain ⟨result, error, _, generated⟩ := val
      cases callGenerators_error hc
      have he : (if !result then ({ error := some error, files := generated } :
          CodeGeneratorResponse) else { files := generated }) =
          { error := if !result then some error else none, files := generated } := by
        cases result <;> rfl
      have hm (o : Option CodeGeneratorResponse) : (match o with
          | none => .died | some response => .answered response : Exit) = .answered response ↔
            o = some response := by
        cases o <;> simp
      simp only [he, hm, addInserts_eq_some]
      apply and_congr_right
      intro _
      constructor
      case mp =>
        rintro rfl
        exact ⟨result, error, _, rfl, rfl⟩
      case mpr =>
        rintro ⟨_, _, _, h, rfl⟩
        cases h
        rfl

end RpcPlugin
end ProtoCall
