import EasyDds.Rtps.Message.Parameters

/-!
The inline QoS a writer sends is read back: parameter by parameter, then the list up to its
sentinel.
-/

namespace EasyDds.Rtps.CdrMessage

open List hiding Vector

open Prog

variable {α : Type} {e : Endianness} {slack : Nat} {vendor : VendorId} {pid : Nat}

structure Parameter where
  pid : Nat
  data : List UInt8

namespace Parameter

/-- Identifier and length fit their fields, and the next parameter starts aligned. -/
structure WellFormed (p : Parameter) : Prop where
  pid_lt : p.pid < 2 ^ 16
  not_sentinel : p.pid ≠ pidSentinel
  length_lt : p.data.length < 2 ^ 16
  aligned : p.data.length % 4 = 0

/-- A parameter the receiver of a change does not look at. -/
structure Foreign (p : Parameter) : Prop extends p.WellFormed where
  not_keyHash : p.pid ≠ pidKeyHash
  not_status : p.pid ≠ pidStatusInfo
  not_identity : p.pid ≠ pidRelatedSampleIdentity
  not_customIdentity : p.pid ≠ pidCustomRelatedSampleIdentity

def image (e : Endianness) (p : Parameter) : List UInt8 :=
  wordImage e 2 p.pid ++ (wordImage e 2 p.data.length ++ p.data)

lemma length_image (e : Endianness) (p : Parameter) : (p.image e).length = 4 + p.data.length := by
  simp only [image, length_append, length_wordImage]
  omega

def key (handle : InstanceHandle) : Parameter := ⟨pidKeyHash, handle.value.toList⟩

def status (status : Nat) : Parameter := ⟨pidStatusInfo, [0, 0, 0, UInt8.ofNat status]⟩

def identityImage (e : Endianness) (id : SampleIdentity) : List UInt8 :=
  id.writerGuid.guidPrefix.toList ++ (id.writerGuid.entityId.toList ++
    sequenceNumberImage e id.sequenceNumber)

def identity (pid : Nat) (e : Endianness) (id : SampleIdentity) : Parameter :=
  ⟨pid, identityImage e id⟩

lemma length_identityImage (e : Endianness) (id : SampleIdentity) :
    (identityImage e id).length = 24 := by
  simp [identityImage, length_sequenceNumberImage]

lemma wellFormed_key (handle : InstanceHandle) : (key handle).WellFormed :=
  ⟨by simp [key, pidKeyHash], by simp [key, pidKeyHash, pidSentinel], by simp [key], by simp [key]⟩

lemma wellFormed_status (s : Nat) : (status s).WellFormed :=
  ⟨by simp [status, pidStatusInfo], by simp [status, pidStatusInfo, pidSentinel],
    by simp [status], by simp [status]⟩

lemma wellFormed_identity (hpid : pid < 2 ^ 16) (hne : pid ≠ pidSentinel)
    (id : SampleIdentity) : (identity pid e id).WellFormed :=
  ⟨hpid, hne, by simp [identity, length_identityImage], by simp [identity, length_identityImage]⟩

end Parameter

section Writing

lemma emits_addUInt16 (x : Nat) : Emits slack e (addUInt16 x) true (wordImage e 2 x) :=
  emits_addPrimitive 2 x

lemma emits_guarded {strict : Bool} {n : Nat} {m : Reader Bool} {bytes : List UInt8}
    (hm : Emits 1 e m true bytes) (hn : bytes.length = n) :
    Emits 1 e (do if ← roomFor strict n then m else pure false) true bytes := by
  intro msg hend hroom
  have hfits := hroom.fits
  have hmax := hroom.maxSize_lt
  have hnext : wrap32 (msg.pos + n) = msg.pos + n := Nat.mod_eq_of_lt (by omega)
  have hlt : msg.pos + n < msg.maxSize := by omega
  have hle : msg.pos + n ≤ msg.maxSize := by omega
  simp only [roomFor, run_bind_bind, run_read_bind, run_pure_bind, hnext, hlt, hle,
    decide_true, ite_self, if_true]
  exact hm msg hend hroom

lemma emits_addParameterKey (handle : InstanceHandle) :
    Emits 1 e (addParameterKey handle) true ((Parameter.key handle).image e) := by
  refine emits_guarded ?_ (by simp [Parameter.length_image, Parameter.key])
  refine (emits_addUInt16 _).bind ?_
  have hlen : (Parameter.key handle).data.length = 16 := by simp [Parameter.key]
  rw [hlen]
  exact (emits_addUInt16 _).bind (emits_addData _).map

lemma emits_addParameterStatus (s : Nat) :
    Emits 1 e (addParameterStatus s) true ((Parameter.status s).image e) := by
  refine emits_guarded ?_ (by simp [Parameter.length_image, Parameter.status])
  refine (emits_addUInt16 _).bind ((emits_addUInt16 _).bind ?_)
  exact (emits_addOctet 0).bind ((emits_addOctet 0).bind ((emits_addOctet 0).bind
    (emits_addOctet s).map))

lemma emits_addIdentityParameter (pid : Nat) (id : SampleIdentity) :
    Emits 1 e (addIdentityParameter pid id) true ((Parameter.identity pid e id).image e) := by
  refine emits_guarded ?_ (by
    simp [Parameter.length_image, Parameter.identity, Parameter.length_identityImage])
  refine (emits_addUInt16 _).bind ?_
  have hlen : (Parameter.identity pid e id).data.length = 24 := by
    simp [Parameter.identity, Parameter.length_identityImage]
  rw [hlen]
  refine (emits_addUInt16 _).bind ((emits_addData _).bind ((emits_addData _).bind ?_))
  exact (emits_addPrimitive 4 _).bind (emits_addUInt32 _).map

def sentinelImage (e : Endianness) : List UInt8 := wordImage e 2 pidSentinel ++ wordImage e 2 0

lemma length_sentinelImage (e : Endianness) : (sentinelImage e).length = 4 := by
  simp [sentinelImage]

lemma emits_addParameterSentinel : Emits 1 e addParameterSentinel true (sentinelImage e) := by
  refine emits_guarded ?_ (length_sentinelImage e)
  exact (emits_addUInt16 _).bind (emits_addUInt16 _).map

end Writing

section Reading

/-- The processor takes the parameter and turns `qos` into `qos'`; where it leaves the cursor does
not matter. -/
def Processes (vendor : VendorId) (e : Endianness) (p : Parameter) (qos qos' : InlineQos) : Prop :=
  ∀ msg : CdrMessage, msg.msgEndian = e → msg.Ahead p.data →
    ∃ pos accesses, (processParameter vendor p.pid p.data.length qos).run msg =
      (.ok qos', { msg with pos := pos, accesses := accesses })

variable {p : Parameter} {ps : List Parameter}

lemma Reads.processes {qos qos' : InlineQos}
    (h : Reads e (processParameter vendor p.pid p.data.length qos) qos' p.data) :
    Processes vendor e p qos qos' := by
  intro msg hend hahead
  obtain ⟨accesses, hrun⟩ := h msg hend hahead
  exact ⟨_, accesses, hrun⟩

/-- A reader may leave bytes behind it unread. -/
theorem processes_of_pure {qos : InlineQos}
    (h : processParameter vendor p.pid p.data.length qos = pure qos) :
    Processes vendor e p qos qos := by
  intro msg _ _
  exact ⟨msg.pos, msg.accesses, by rw [h]; rfl⟩

lemma processes_foreign (hp : p.Foreign) (qos : InlineQos) : Processes vendor e p qos qos := by
  apply processes_of_pure
  simp only [processParameter, if_neg hp.not_keyHash, if_neg hp.not_status, hp.not_identity,
    hp.not_customIdentity, or_self, if_false]

lemma reads_bytes {n : Nat} (v : Vector UInt8 n) (hn : 0 < n) :
    Reads e (readData true n) v.toList v.toList := by
  have hlen : v.toList.length = n := by simp
  have hne : v.toList ≠ [] := by
    intro hnil
    rw [hnil, length_nil] at hlen
    omega
  have h := reads_readData (e := e) hne
  rwa [hlen] at h

lemma processes_key (vendor : VendorId) (handle : InstanceHandle) (qos : InlineQos) :
    Processes vendor e (.key handle) qos
      { qos with instanceHandle := ⟨handle.value, true⟩ } := by
  apply Reads.processes
  have h := (reads_bytes (e := e) handle.value (by omega)).map
    (f := fun key => { qos with instanceHandle := ⟨ofBytes 16 key, true⟩ })
  rw [ofBytes_toList] at h
  have hlen : (Parameter.key handle).data.length = 16 := by simp [Parameter.key]
  rw [hlen]
  exact h

lemma reads_readOctet (b : UInt8) : Reads e readOctet b.toNat [b] := by
  have h := reads_fetch e [b] (fun msg => span msg.pos 1) (fun _ taken => ofLittleEndian taken)
    fun msg _ => map_span _ _ _
  exact h

lemma processes_status (vendor : VendorId) {s : Nat} (hs : s < 256) (qos : InlineQos) :
    Processes vendor e (.status s) qos { qos with kind := statusKind qos.kind s } := by
  apply Reads.processes
  have hbyte : (UInt8.ofNat s).toNat = s := by
    exact Nat.mod_eq_of_lt hs
  have hlast := (reads_readOctet (e := e) (UInt8.ofNat s)).attempt
  rw [hbyte] at hlast
  have hread : Reads e readStatus s (Parameter.status s).data :=
    (reads_readOctet 0).attempt.bind ((reads_readOctet 0).attempt.bind
      ((reads_readOctet 0).attempt.bind (hlast.bind_nil (Reads.pure s))))
  exact hread.map

/-- Reading an identity succeeds, whatever it is. -/
theorem reads_readSampleIdentity (id : SampleIdentity) : Reads e readSampleIdentity
      ⟨⟨id.writerGuid.guidPrefix, id.writerGuid.entityId⟩,
        signed 4 ((id.sequenceNumber / 2 ^ 32 % 2 ^ 32).toNat % 256 ^ 4) * 2 ^ 32 +
          ((id.sequenceNumber % 2 ^ 32).toNat % 256 ^ 4 : Nat)⟩
      (Parameter.identityImage e id) := by
  refine (reads_bytes _ (by omega)).attempt.bind ((reads_bytes _ (by omega)).attempt.bind ?_)
  refine (reads_readWord 4 _).map.attempt.bind ?_
  refine (reads_readWord 4 _).attempt.bind_nil ?_
  simp only [ofBytes_toList]
  exact Reads.pure _

lemma processParameter_identity
    (hpid : pid = pidRelatedSampleIdentity ∨ pid = pidCustomRelatedSampleIdentity) (n : Nat)
    (qos : InlineQos) : processParameter vendor pid n qos =
      if pid = pidCustomRelatedSampleIdentity ∧ vendor ≠ (1, 15) ∧ vendor ≠ (1, 1) then pure qos
      else if 24 ≤ n then do
        let sampleIdentity ← readSampleIdentity
        pure { qos with sampleIdentity := sampleIdentity }
      else pure qos := by
  have hkey : pid ≠ pidKeyHash := by rcases hpid with rfl | rfl <;> decide
  rw [processParameter, if_neg hkey, if_pos hpid.symm]

/-- An identity parameter changes nothing but the identity. -/
theorem processes_identity (vendor : VendorId) (id : SampleIdentity) (qos : InlineQos)
    (hpid : pid = pidRelatedSampleIdentity ∨ pid = pidCustomRelatedSampleIdentity) :
    ∃ qos', Processes vendor e (.identity pid e id) qos qos' ∧ qos'.kind = qos.kind ∧
      qos'.instanceHandle = qos.instanceHandle := by
  have hlen : (Parameter.identity pid e id).data.length = 24 := Parameter.length_identityImage e id
  by_cases hskip : pid = pidCustomRelatedSampleIdentity ∧ vendor ≠ (1, 15) ∧ vendor ≠ (1, 1)
  · refine ⟨qos, processes_of_pure ?_, rfl, rfl⟩
    exact (processParameter_identity hpid _ qos).trans (if_pos hskip)
  · have h := (reads_readSampleIdentity (e := e) id).map
      (f := fun id' => { qos with sampleIdentity := id' })
    have hproc : processParameter vendor (Parameter.identity pid e id).pid 24 qos = _ :=
      processParameter_identity hpid 24 qos
    rw [if_neg hskip, if_pos (Nat.le_refl 24)] at hproc
    rw [← hproc, ← hlen] at h
    exact ⟨_, Reads.processes h, rfl, rfl⟩

def ProcessesAll (vendor : VendorId) (e : Endianness) :
    List Parameter → InlineQos → InlineQos → Prop
  | [], qos, qos' => qos' = qos
  | p :: ps, qos, qos'' => ∃ qos', Processes vendor e p qos qos' ∧
      ProcessesAll vendor e ps qos' qos''

lemma processesAll_append {qs : List Parameter} {a b c : InlineQos}
    (hps : ProcessesAll vendor e ps a b) (hqs : ProcessesAll vendor e qs b c) :
    ProcessesAll vendor e (ps ++ qs) a c := by
  induction ps generalizing a with
  | nil =>
    obtain rfl : b = a := hps
    exact hqs
  | cons p ps ih =>
    obtain ⟨mid, hp, hrest⟩ := hps
    exact ⟨mid, hp, ih hrest⟩

lemma processesAll_foreign (hps : ∀ p ∈ ps, p.Foreign) (qos : InlineQos) :
    ProcessesAll vendor e ps qos qos := by
  induction ps with
  | nil => rfl
  | cons p ps ih =>
    exact ⟨qos, processes_foreign (hps p (by simp)) qos, ih fun q hq => hps q (by simp [hq])⟩

def parametersImage (e : Endianness) (ps : List Parameter) : List UInt8 := ps.flatMap (·.image e)

variable {vendor : VendorId} {msg : CdrMessage} {origin size : Nat} {qos qos' : InlineQos}

lemma length_parametersImage_cons (p : Parameter) (ps : List Parameter) :
    (parametersImage e (p :: ps)).length = 4 + p.data.length + (parametersImage e ps).length := by
  simp only [parametersImage, flatMap_cons, length_append, Parameter.length_image]

lemma readParameter_continues {rest : List UInt8} (hend : msg.msgEndian = e) (hp : p.WellFormed)
    (hproc : Processes vendor e p qos qos') (hsize : size % 4 = 0)
    (hahead : (msg.rewound (origin + size)).Ahead (p.image e ++ rest)) :
    ∃ pos accesses, (readParameter vendor origin (size, qos)).run msg =
      (.ok (.inl (size + (4 + p.data.length), qos')),
        { msg with pos := pos, accesses := accesses }) := by
  have hin := hahead.inside
  have hlt := hahead.length_lt
  have haligned := hp.aligned
  simp only [rewound, length_append, Parameter.length_image] at hin hlt
  have hpos : wrap32 (origin + size) = origin + size := Nat.mod_eq_of_lt (by omega)
  have hnext : wrap32 (wrap32 (size + (4 + p.data.length)) + 3) / 4 * 4 =
      size + (4 + p.data.length) := by
    unfold wrap32
    omega
  rw [Parameter.image, append_assoc, append_assoc] at hahead
  rw [readParameter, run_modify_bind, hpos]
  obtain ⟨accesses, hpid, hahead⟩ := (reads_readUInt16 hp.pid_lt).attempt.step hahead hend
  rw [hpid]
  obtain ⟨accesses', hplength, hahead⟩ :=
    (reads_readUInt16 hp.length_lt).attempt.step hahead hend
  rw [hplength]
  obtain ⟨pos, accesses'', hrun⟩ := hproc _ (by exact hend) hahead.left
  refine ⟨pos, accesses'', ?_⟩
  have hcheck : ¬ msg.length < wrap32 (origin + size + 2 + 2 + p.data.length) := by
    unfold wrap32
    omega
  simp only [Option.getD_some, hp.not_sentinel, decide_false, Option.isNone_some, hnext,
    run_read_bind, moved, rewound, length_wordImage, hcheck, Bool.false_eq_true, or_self,
    if_false] at hrun ⊢
  rw [bind_of_ok hrun]
  rfl

lemma readParameter_stops (vendor : VendorId) (qos : InlineQos) (hend : msg.msgEndian = e)
    (hsize : size % 4 = 0) (hahead : (msg.rewound (origin + size)).Ahead (sentinelImage e)) : ∃
    accesses, (readParameter vendor origin (size, qos)).run msg =
      (.ok (.inr (size + 4, qos)), { msg with pos := origin + size + 4, accesses :=
        accesses }) := by
  have hin := hahead.inside
  have hlt := hahead.length_lt
  simp only [rewound, length_sentinelImage] at hin hlt
  have hpos : wrap32 (origin + size) = origin + size := Nat.mod_eq_of_lt (by omega)
  have hnext : wrap32 (wrap32 (size + (4 + 0)) + 3) / 4 * 4 = size + 4 := by
    unfold wrap32
    omega
  rw [sentinelImage, ← List.append_nil (wordImage e 2 0)] at hahead
  rw [readParameter, run_modify_bind, hpos]
  obtain ⟨accesses, hpid, hahead⟩ := (reads_readUInt16 (by decide)).attempt.step hahead hend
  rw [hpid]
  obtain ⟨accesses', hplength, -⟩ := (reads_readUInt16 (by decide)).attempt.step hahead hend
  rw [hplength]
  refine ⟨accesses', ?_⟩
  have hcheck : ¬ msg.length < wrap32 (origin + size + 2 + 2 + 0) := by
    unfold wrap32
    omega
  simp only [Option.getD_some, decide_true, Option.isNone_some, if_true, hnext, run_read_bind,
    moved, rewound, length_wordImage, hcheck, Bool.false_eq_true, or_self, if_false]
  rfl

lemma loop_parameters (hps : ∀ p ∈ ps, p.WellFormed) (hproc : ProcessesAll vendor e ps qos qos')
    (hend : msg.msgEndian = e) (hsize : size % 4 = 0)
    (hahead : (msg.rewound (origin + size)).Ahead (parametersImage e ps ++ sentinelImage e))
    {fuel : Nat} (hfuel : ps.length < fuel) :
    ∃ accesses, (loop () (readParameter vendor origin) fuel (size, qos)).run msg =
      (.ok (size + ((parametersImage e ps).length + 4), qos'), { msg with
          pos := origin + (size + ((parametersImage e ps).length + 4)), accesses :=
            accesses }) := by
  obtain ⟨fuel, rfl⟩ : ∃ k, fuel = k + 1 := ⟨fuel - 1, by omega⟩
  induction ps generalizing msg size qos fuel with
  | nil =>
    obtain rfl : qos' = qos := hproc
    obtain ⟨accesses, hrun⟩ := readParameter_stops vendor qos' hend hsize hahead
    refine ⟨accesses, ?_⟩
    rw [loop_of_inr hrun]
    simp only [parametersImage, flatMap_nil, length_nil, Nat.zero_add, Nat.add_assoc]
  | cons p ps ih =>
    obtain ⟨mid, hp, hrest⟩ := hproc
    have hwf := hps p (by simp)
    have haligned := hwf.aligned
    have hsplit : parametersImage e (p :: ps) ++ sentinelImage e =
        p.image e ++ (parametersImage e ps ++ sentinelImage e) := by
      simp only [parametersImage, flatMap_cons, append_assoc]
    rw [hsplit] at hahead
    obtain ⟨pos, accesses, hrun⟩ := readParameter_continues hend hwf hp hsize hahead
    obtain ⟨fuel, rfl⟩ : ∃ k, fuel = k + 1 :=
      ⟨fuel - 1, by simp only [length_cons] at hfuel; omega⟩
    have hahead' : (({ msg with pos := pos, accesses := accesses } : CdrMessage).rewound
        (origin + (size + (4 + p.data.length)))).Ahead (parametersImage e ps ++
          sentinelImage e) := by
      have h := hahead.right accesses
      rw [Parameter.length_image] at h
      simpa only [rewound, moved, Nat.add_assoc] using h
    obtain ⟨accesses', hloop⟩ := ih (fun q hq => hps q (by simp [hq])) hrest (by exact hend)
      (by omega) hahead' fuel (by simp only [length_cons] at hfuel; omega)
    refine ⟨accesses', ?_⟩
    rw [loop_of_inl hrun, hloop, length_parametersImage_cons]
    simp only [Nat.add_assoc]

/-- A list of parameters is read up to its sentinel, whatever each of them says: the rounds follow
the parameters, and the sentinel ends them. -/
theorem reads_updateCacheChangeFromInlineQos (hps : ∀ p ∈ ps, p.WellFormed)
    (hproc : ProcessesAll vendor e ps InlineQos.initial qos') :
    Reads e (updateCacheChangeFromInlineQos vendor) ((parametersImage e ps).length + 4, qos')
      (parametersImage e ps ++ sentinelImage e) := by
  intro msg hend hahead
  have hin := hahead.inside
  have hcount : ps.length ≤ (parametersImage e ps).length := by
    clear hps hproc hahead hin
    induction ps with
    | nil => simp
    | cons p ps ih =>
      rw [length_parametersImage_cons, length_cons]
      omega
  rw [length_append] at hin
  have hstart : (msg.rewound (msg.pos + 0)).Ahead (parametersImage e ps ++ sentinelImage e) :=
    hahead
  obtain ⟨accesses, hrun⟩ := loop_parameters hps hproc hend rfl hstart
    (by omega : ps.length < msg.length + 1)
  refine ⟨accesses, ?_⟩
  rw [updateCacheChangeFromInlineQos, run_read_bind, hrun]
  simp only [Nat.zero_add, moved, length_append, length_sentinelImage]

end Reading

end EasyDds.Rtps.CdrMessage
