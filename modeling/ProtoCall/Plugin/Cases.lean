import ProtoCall.Plugin.Generator

namespace ProtoCall

namespace ServiceDescriptor

-- The method whose `case` label is `id` where the methods with a `Void` result are left out.
def replying? (s : ServiceDescriptor) (id : ℤ) : Option MethodDescriptor :=
  s.methods.find? fun m => !m.voidOutput && m.id = id

variable {s : ServiceDescriptor} {m : MethodDescriptor} {id : ℤ}

theorem mem_of_replying? (h : s.replying? id = some m) : m ∈ s.methods :=
  List.mem_of_find?_eq_some h

theorem voidOutput_of_replying? (h : s.replying? id = some m) : m.voidOutput = false := by
  have h := List.find?_some h
  simp at h
  exact h.left

theorem id_of_replying? (h : s.replying? id = some m) : m.id = id := by
  have h := List.find?_some h
  simp at h
  exact h.right

theorem replying?_id (hn : s.ids.Nodup) (hm : m ∈ s.methods) (ho : m.voidOutput = false) :
    s.replying? m.id = some m := by
  have hu : ∀ m' ∈ s.methods, m'.id = m.id → m' = m :=
    fun m' hm' he => List.inj_on_of_nodup_map hn hm' hm he
  cases h : s.replying? m.id
  case none    => simpa [ho] using List.find?_eq_none.mp h m hm
  case some m' => exact congrArg some <| hu m' (mem_of_replying? h) (id_of_replying? h)

theorem isSome_replying?_of_mem (hm : m ∈ s.methods) (ho : m.voidOutput = false) :
    (s.replying? m.id).isSome :=
  List.find?_isSome.mpr ⟨m, hm, by simp [ho]⟩

theorem isSome_replying?_id (hn : s.ids.Nodup) (hm : m ∈ s.methods) :
    (s.replying? m.id).isSome = !m.voidOutput := by
  cases ho : m.voidOutput
  case false => rw [replying?_id hn hm ho]; rfl
  case true =>
    cases hr : s.replying? m.id
    case none    => rfl
    case some m' =>
      have he : m' = m := List.inj_on_of_nodup_map hn (mem_of_replying? hr) hm (id_of_replying? hr)
      rw [← he, voidOutput_of_replying? hr] at ho
      contradiction

end ServiceDescriptor

namespace RpcGenerator

theorem lookup_cases {α : Type*} (xs : List α) (void : α → Bool) (label : α → ℤ)
    (body : α → Stmt) (id : ℤ) :
    (xs.filterMap fun x => if void x then none else some (label x, body x)).lookup id =
      (xs.find? fun x => !void x && label x = id).map body := by
  induction xs
  case nil => rfl
  case cons x xs hi =>
    cases hv : void x
    case true => simpa [hv] using hi
    case false =>
      by_cases hl : label x = id
      case pos => simp [hv, hl]
      case neg =>
        have he : (id == label x) = false := by simpa using Ne.symm hl
        simpa [hv, hl, List.lookup_cons, he] using hi

variable {service : ServiceDescriptor} {method : MethodDescriptor} {id : ℤ}

theorem lookup_dispatch : (generateDispatchMethodBody service).cases.lookup id =
    (service.method? id).map (generateDispatchCase service) := by
  have h := lookup_cases service.methods (fun _ => false) (·.id) (generateDispatchCase service) id
  simpa [generateDispatchMethodBody, ServiceDescriptor.method?, MethodDescriptor.id] using h

theorem lookup_handle : (generateResponseHandlerCpp service).cases.lookup id =
    (service.replying? id).map generateHandleCase :=
  lookup_cases ..

theorem select_dispatch (h : service.method? id = some method) :
    (generateDispatchMethodBody service).select id = generateDispatchCase service method := by
  simp [Switch.select, lookup_dispatch, h]

theorem select_dispatch_of_none (h : service.method? id = none) :
    (generateDispatchMethodBody service).select id =
      (generateDispatchMethodBody service).default := by
  simp [Switch.select, lookup_dispatch, h]

theorem select_handle :
    (generateResponseHandlerCpp service).select id =
      (service.replying? id).elim .skip generateHandleCase := by
  rw [Switch.select, lookup_handle]
  cases service.replying? id <;> rfl

theorem lookup_reply : (generateRelyMethod service).cases.lookup id =
    (service.methods.zipIdx.find? fun x => !x.fst.voidOutput && x.fst.id = id).map
      fun x => generateReplyCase x.fst x.snd :=
  lookup_cases service.methods.zipIdx (·.fst.voidOutput) (·.fst.id) ..

theorem find_zipIdx :
    (service.methods.zipIdx.find? fun x => !x.fst.voidOutput && x.fst.id = id).map Prod.fst =
      service.replying? id := by
  rw [ServiceDescriptor.replying?]
  conv_rhs => rw [← List.zipIdx_map_fst 0 service.methods, List.find?_map]
  rfl

theorem select_reply (h : service.replying? id = some method) :
    ∃ j, (generateRelyMethod service).select id = generateReplyCase method j := by
  obtain ⟨⟨method, j⟩, hx, rfl⟩ := Option.map_eq_some_iff.mp <| find_zipIdx.trans h
  refine ⟨j, ?_⟩
  rw [Switch.select, lookup_reply, hx]
  rfl

theorem select_reply_of_none (h : service.replying? id = none) :
    (generateRelyMethod service).select id = (generateRelyMethod service).default := by
  rw [Switch.select, lookup_reply, Option.map_eq_none_iff.mp <| find_zipIdx.trans h]
  rfl

end RpcGenerator
end ProtoCall
