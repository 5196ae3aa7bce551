import UefiLkl.Deletion
import UefiLkl.Lib.ByteStore
import UefiLkl.Service
set_option autoImplicit false

/-!
What the file protocol is for: the handles on files are cursors into sequences of bytes, and
every run of the protocol is a run of such a store.
-/

namespace UefiLkl
open Interaction ByteStore

def Inode.bytes (i : Inode) : Bytes := (List.range i.size).map i.content

def OpenFile.cursor (o : OpenFile) : Cursor Nat := ⟨o.ino, o.pos, o.flags &&& 3 ≠ O_RDONLY⟩

def LklIfile.regular (f : LklIfile) : Bool := !isDirMode f.statBuf.mode

def World.files (s : World) : List Int := (s.handles.filter LklIfile.regular).map LklIfile.fd

def World.store (s : World) : Store UInt8 Nat Int where
  bytes i := (s.kernel.inode i).bytes
  cursor fd := if fd ∈ s.files then (s.kernel.fd fd).map OpenFile.cursor else none

/-- What a request gives back, apart from the handle: `size` is what a read or a write leaves in
`BufferSize`. -/
structure Reply where
  status : EfiStatus
  size : Nat
  data : IoData
  position : Option Int
  deriving DecidableEq

def Request.reply (w : Nat) (f : LklIfile) : Request → Lkl (Reply × HandleChange)
  | .read bufferSize => do
    let (status, size, data, f) ← lklRead w f bufferSize
    pure (⟨status, size, data, none⟩, .kept f)
  | .write buffer => do
    let (status, size, _, f) ← lklWrite w f buffer
    pure (⟨status, size, .none, none⟩, .kept f)
  | .getPosition => do
    let (status, position) ← lklGetPosition f
    pure (⟨status, 0, .none, position⟩, .kept f)
  | r => do
    let (status, change) ← r.serve w f
    pure (⟨status, 0, .none, none⟩, change)

/-- It is the request as the table serves it, with nothing dropped. -/
theorem Request.reply_serve (w : Nat) (f : LklIfile) (r : Request) :
    (do let x ← r.reply w f; pure (x.1.status, x.2)) = r.serve w f := by
  have hserve : (do let x ← r.serve w f; pure (x.1, x.2) : Lkl (EfiStatus × HandleChange)) =
      r.serve w f := Prog.bind_ret _
  cases r with
  | read bufferSize => simp only [Request.reply, Request.serve, Prog.bind_assoc]; rfl
  | write buffer => simp only [Request.reply, Request.serve, Prog.bind_assoc]; rfl
  | getPosition => simp only [Request.reply, Request.serve, Prog.bind_assoc]; rfl
  | _ =>
    simp only [Request.reply, Prog.bind_assoc, pure_bind]
    exact hserve

theorem reply_firm (w : Nat) (f : LklIfile) {r : Request} (hread : ∀ size, r ≠ .read size)
    (hwrite : ∀ buffer, r ≠ .write buffer) (hinfo : ∀ type size, r ≠ .getInfo type size) :
    (r.reply w f).Only fun c => c.firm = true := by
  cases r with
  | read size => exact absurd rfl (hread size)
  | write buffer => exact absurd rfl (hwrite buffer)
  | getPosition => exact (lklGetPosition_firm f).bind fun _ => trivial
  | _ => exact (serve_firm w f hread hwrite hinfo).bind fun _ => trivial

def targetPosition (size : Nat) (position : UInt64) : Nat :=
  if position = 0xffffffffffffffff then size else position.toNat

/-- What an answered request on the file `o` says about it. Where transfers may be `short`, it goes
by the `BufferSize` that is returned. A write of no bytes is none. -/
def OpenFile.access (o : OpenFile) (short : Bool) (size : Nat) (fd : Int) (r : Request)
    (x : Reply) : List (Access UInt8 Nat Int) :=
  match r with
  | .read len => match x.data with
    | .bytes data => [.read fd o.ino o.pos (if short then x.size else len) data]
    | _ => []
  | .getPosition => (x.position.map fun p => .tell fd o.ino p.toNat).toList
  | .write data =>
    if x.status = .success ∧ 0 < x.size then
      [.write fd o.ino o.pos (if short then data.take x.size else data)]
    else []
  | .setPosition position =>
    if x.status = .success then [.seek fd o.ino (targetPosition size position)] else []
  | .setInfo .fileInfo _ info =>
    if x.status = .success then [.resized fd o.ino info.fileSize] else []
  | _ => []

def Linux.access (k : Linux) (short : Bool) (f : LklIfile) (r : Request) (x : Reply) :
    List (Access UInt8 Nat Int) :=
  match k.fd f.fd with
  | some o => if f.regular then o.access short (k.inode o.ino).size f.fd r x else []
  | none => []

def Linux.made (k k' : Linux) : List (Access UInt8 Nat Int) :=
  (List.range' k.nextIno (k'.nextIno - k.nextIno)).map .made

def Linux.turns (k' : Linux) (f : LklIfile) : HandleChange → List (Access UInt8 Nat Int)
  | .kept _ => []
  | .closed => [.closed f.fd]
  | .opened new => match k'.fd new.fd with
    | some o => if new.regular then [.opened new.fd o.ino (o.flags &&& 3 ≠ O_RDONLY)] else []
    | none => []

inductive World.Serves (w : Nat) (short : Bool) :
    World → List (Access UInt8 Nat Int) → World → Prop where
  | nil (s : World) : Serves w short s [] s
  | openVolume {s : World} {k k' : Linux} {handles : List LklIfile}
      {as : List (Access UInt8 Nat Int)} {volume : LklVolume} {r : EfiStatus × Option LklIfile}
      (hrun : Serves w short s as ⟨k, handles⟩)
      (h : (Linux.answering short).Ran (lklOpenVolume volume) k r k') :
      Serves w short s (as ++ (k.made k' ++ r.2.toList.flatMap fun f => k'.turns f (.opened f)))
        ⟨k', r.2.toList ++ handles⟩
  | request {s : World} {k k' : Linux} {handles : List LklIfile}
      {as : List (Access UInt8 Nat Int)} {f : LklIfile} {r : Request} {x : Reply × HandleChange}
      (hrun : Serves w short s as ⟨k, handles⟩) (hf : f ∈ handles)
      (h : (Linux.answering short).Ran (r.reply w f) k x k') :
      Serves w short s (as ++ (k.access short f r x.1 ++ k.made k' ++ k'.turns f x.2))
        ⟨k', World.change handles f x.2⟩

/-- The inodes that are in use are old ones, and a file is zero from its end on. -/
structure Linux.Sound (k : Linux) : Prop where
  nodes : ∀ p n, k.fs.node p = some n → n.ino < k.nextIno
  files : ∀ n o, k.fds n = some o → o.ino < k.nextIno
  tidy : ∀ i n, (k.inode i).size ≤ n → (k.inode i).content n = 0

/-- Every handle has a descriptor of its own, and was made for the file that it refers to. -/
structure World.Sound (s : World) : Prop where
  kernel : s.kernel.Sound
  opened : ∀ f ∈ s.handles, 0 ≤ f.fd ∧ f.fd.toNat < s.kernel.nextFd
  described : ∀ f ∈ s.handles, ∃ o, s.kernel.fd f.fd = some o ∧
    isDirMode f.statBuf.mode = (s.kernel.inode o.ino).isDir
  distinct : (s.handles.map LklIfile.fd).Nodup

/-- The descriptor `fd` of the file `o` is at `pos` now, and the file holds `data`. Some descriptors
may be new. -/
structure Linux.Serving (k k' : Linux) (fd : Int) (o : OpenFile) (pos : Nat) (data : Bytes) :
    Prop where
  fs : k'.fs = k.fs
  nextFd : k.nextFd ≤ k'.nextFd
  nextIno : k'.nextIno = k.nextIno
  own : k'.fds fd.toNat = some { o with pos := pos }
  others : ∀ n, n ≠ fd.toNat → k'.fds n = k.fds n ∨
    k.nextFd ≤ n ∧ ∀ o', k'.fds n = some o' → o'.ino < k.nextIno
  kind : ∀ i, (k'.inode i).isDir = (k.inode i).isDir
  bytes : (k'.inode o.ino).bytes = data
  bytes' : ∀ i, i ≠ o.ino → (k'.inode i).bytes = (k.inode i).bytes
  tidy : ∀ i n, (k'.inode i).size ≤ n → (k'.inode i).content n = 0

section Serving

variable {k k' : Linux} {handles : List LklIfile} {f f' : LklIfile} {o : OpenFile} {fd : Int}
  {pos : Nat} {data : Bytes} {s : World}

theorem Linux.fds_of_fd (h : k.fd fd = some o) : 0 ≤ fd ∧ k.fds fd.toNat = some o := by
  unfold Linux.fd at h
  split at h
  · cases h
  · exact ⟨by omega, h⟩

theorem Linux.fd_eq_fds (h : 0 ≤ fd) : k.fd fd = k.fds fd.toNat := if_neg (by omega)

theorem World.mem_kept {g : LklIfile} (hg : g ∈ World.change handles f (.kept f')) :
    g = f' ∨ g ∈ handles.erase f := List.mem_cons.mp hg

theorem World.files_kept (hf : f ∈ handles) (hfd : f'.fd = f.fd) (hstat : f'.statBuf = f.statBuf)
    (fd : Int) : fd ∈ World.files ⟨k', World.change handles f (.kept f')⟩ ↔
      fd ∈ World.files ⟨k, handles⟩ := by
  have hregular : f'.regular = f.regular := by rw [LklIfile.regular, hstat, LklIfile.regular]
  have hperm : (handles.map fun g => (g.regular, g.fd)).Perm
      ((f' :: handles.erase f).map fun g => (g.regular, g.fd)) := by
    refine ((List.perm_cons_erase hf).map _).trans ?_
    simp [hregular, hfd]
  have hfiles : ∀ l : List LklIfile, fd ∈ (l.filter LklIfile.regular).map LklIfile.fd ↔
      (true, fd) ∈ l.map fun g => (g.regular, g.fd) := by
    intro l
    simp only [List.mem_map, List.mem_filter, Prod.mk.injEq]
    constructor
    · rintro ⟨g, ⟨hg, hreg⟩, rfl⟩
      exact ⟨g, hg, hreg, rfl⟩
    · rintro ⟨g, hg, hreg, rfl⟩
      exact ⟨g, ⟨hg, hreg⟩, rfl⟩
  exact (hfiles _).trans (hperm.mem_iff.symm.trans (hfiles _).symm)

theorem Linux.Serving.fd_self (h : k.Serving k' fd o pos data) (hfd : 0 ≤ fd) :
    k'.fd fd = some { o with pos := pos } := by
  rw [Linux.fd_eq_fds hfd, h.own]

theorem Linux.Serving.fd_of_ne {fd' : Int} (h : k.Serving k' fd o pos data) (hfd : 0 ≤ fd)
    (hold : 0 ≤ fd' ∧ fd'.toNat < k.nextFd) (hne : fd' ≠ fd) : k'.fd fd' = k.fd fd' := by
  rw [Linux.fd_eq_fds hold.1, Linux.fd_eq_fds hold.1]
  exact (h.others fd'.toNat (by omega)).resolve_right fun hnew => by omega

theorem Linux.Sound.serving (h : k.Sound) (ho : k.fd fd = some o)
    (hs : k.Serving k' fd o pos data) : k'.Sound := by
  refine ⟨?_, fun n o' ho' => ?_, hs.tidy⟩
  · rw [hs.fs, hs.nextIno]
    exact h.nodes
  · rw [hs.nextIno]
    by_cases hn : n = fd.toNat
    · rw [hn, hs.own] at ho'
      cases ho'
      exact h.files _ o (Linux.fds_of_fd ho).2
    · rcases hs.others n hn with hold | ⟨-, hnew⟩
      · rw [hold] at ho'
        exact h.files n o' ho'
      · exact hnew o' ho'

theorem World.Sound.serving (h : World.Sound ⟨k, handles⟩) (hf : f ∈ handles)
    (ho : k.fd f.fd = some o) (hs : k.Serving k' f.fd o pos data) (hfd : f'.fd = f.fd)
    (hstat : f'.statBuf = f.statBuf) :
    World.Sound ⟨k', World.change handles f (.kept f')⟩ := by
  have hpos := (Linux.fds_of_fd ho).1
  have hself := hs.fd_self hpos
  have hopened : ∀ g ∈ handles, 0 ≤ g.fd ∧ g.fd.toNat < k'.nextFd := fun g hg =>
    ⟨(h.opened g hg).1, (h.opened g hg).2.trans_le hs.nextFd⟩
  have hdescribed : ∀ g ∈ handles, ∃ o', k'.fd g.fd = some o' ∧
      isDirMode g.statBuf.mode = (k'.inode o'.ino).isDir := by
    intro g hg
    obtain ⟨o', ho', hkind⟩ := h.described g hg
    by_cases heq : g.fd = f.fd
    · rw [heq, ho] at ho'
      cases ho'
      exact ⟨{ o with pos := pos }, by rw [heq, hself], by rw [hkind, hs.kind]⟩
    · exact ⟨o', by rw [hs.fd_of_ne hpos (h.opened g hg) heq, ho'], by rw [hkind, hs.kind]⟩
  refine ⟨h.kernel.serving ho hs, fun g hg => ?_, fun g hg => ?_, ?_⟩
  · rcases World.mem_kept hg with rfl | hg
    · rw [hfd]
      exact hopened f hf
    · exact hopened g (List.mem_of_mem_erase hg)
  · rcases World.mem_kept hg with rfl | hg
    · rw [hfd, hstat]
      exact hdescribed f hf
    · exact hdescribed g (List.mem_of_mem_erase hg)
  · change ((f' :: handles.erase f).map LklIfile.fd).Nodup
    rw [List.map_cons, hfd, ← List.map_cons]
    exact ((List.perm_cons_erase hf).map _).nodup_iff.mp h.distinct

theorem World.Sound.store_serving (h : World.Sound ⟨k, handles⟩) (hf : f ∈ handles)
    (ho : k.fd f.fd = some o) (hs : k.Serving k' f.fd o pos data) (hfd : f'.fd = f.fd)
    (hstat : f'.statBuf = f.statBuf) :
    World.store ⟨k', World.change handles f (.kept f')⟩ =
      ((World.store ⟨k, handles⟩).put o.ino data).move f.fd pos := by
  have hpos := (Linux.fds_of_fd ho).1
  refine Store.ext (funext fun i => ?_) (funext fun fd => ?_)
  · by_cases hi : i = o.ino
    · subst hi
      simpa [Store.put, Store.move, Store.setCursor, World.store] using hs.bytes
    · simpa [Store.put, Store.move, Store.setCursor, World.store, hi] using hs.bytes' i hi
  · change (if fd ∈ World.files ⟨k', _⟩ then (k'.fd fd).map OpenFile.cursor else none) =
      Function.update (World.store ⟨k, handles⟩).cursor f.fd _ fd
    rw [if_congr (World.files_kept (k := k) hf hfd hstat fd) rfl rfl]
    by_cases hfd' : fd = f.fd
    · subst hfd'
      rw [Function.update_self, hs.fd_self hpos]
      change _ = Option.map _ (if f.fd ∈ World.files ⟨k, handles⟩ then _ else none)
      split
      · rw [ho]
        rfl
      · rfl
    · rw [Function.update_of_ne hfd']
      change _ = if fd ∈ World.files ⟨k, handles⟩ then _ else none
      split
      · next hmem =>
        obtain ⟨g, hg, rfl⟩ := List.mem_map.mp hmem
        rw [hs.fd_of_ne hpos (h.opened g (List.mem_of_mem_filter hg)) hfd']
      · rfl

end Serving

/-- What the accesses of the file say is what became of it. -/
def Explains (fd : Int) (o : OpenFile) (bytes : Bytes) (as : List (Access UInt8 Nat Int))
    (pos : Nat) (data : Bytes) : Prop :=
  as = [] ∧ pos = o.pos ∧ data = bytes ∨
    ∃ a, as = [a] ∧ ∀ S : Store UInt8 Nat Int, S.cursor fd = some o.cursor →
      S.bytes o.ino = bytes → a.Fits S ∧ a.apply 0 S = (S.put o.ino data).move fd pos

/-- The request is served on the file `o`, and its accesses say what it did. -/
structure Handled (short : Bool) (k : Linux) (f : LklIfile) (o : OpenFile) (r : Request)
    (x : Reply × HandleChange) (k' : Linux) : Prop where
  change : ∃ f', x.2 = .kept f' ∧ f'.fd = f.fd ∧ f'.statBuf = f.statBuf
  effect : ∃ pos data, k.Serving k' f.fd o pos data ∧
    Explains f.fd o (k.inode o.ino).bytes (k.access short f r x.1) pos data

section Requests

variable {w : Nat} {short : Bool} {k k' : Linux} {f f' : LklIfile} {o : OpenFile} {r : Request}
  {status : EfiStatus} {size : Nat} {position : Option Int} {io : IoData}

theorem Linux.always_lseek {α : Type} {Q : α → Linux → Prop} {fd off : Int} {whence : Nat}
    {g : Int → Lkl α}
    (hok : Linux.faulty.Always (g (k.lseek fd off whence).1) Q (k.lseek fd off whence).2)
    (hfault : ∀ rc, rc < 0 → Linux.faulty.Always (g rc) Q { k with faulted := true }) :
    Linux.faulty.Always (lklSysLseek fd off whence >>= g) Q k :=
  Linux.always_ask.mpr ⟨hok, fun rc hrc => hfault rc (of_decide_eq_true hrc)⟩

theorem Linux.always_chmod {α : Type} {Q : α → Linux → Prop} {path : Bytes} {mode : Nat}
    {g : Int → Lkl α}
    (hok : Linux.faulty.Always (g (k.chmod path mode).1) Q (k.chmod path mode).2)
    (hfault : ∀ rc, rc < 0 → Linux.faulty.Always (g rc) Q { k with faulted := true }) :
    Linux.faulty.Always (lklSysChmod path mode >>= g) Q k :=
  Linux.always_ask.mpr ⟨hok, fun rc hrc => hfault rc (of_decide_eq_true hrc)⟩

theorem Linux.always_fstat {α : Type} {Q : α → Linux → Prop} {fd : Int} {g : Int × Stat → Lkl α}
    (hok : Linux.faulty.Always (g (k.fstat fd)) Q k)
    (hfault : ∀ x : Int × Stat, x.1 < 0 → Linux.faulty.Always (g x) Q { k with faulted := true }) :
    Linux.faulty.Always (lklSysFstat fd >>= g) Q k :=
  Linux.always_ask.mpr ⟨hok, fun x hx => hfault x (of_decide_eq_true hx)⟩

theorem Linux.serving_of_core (hk : k.Sound) (ho : k.fd f.fd = some o) (hcore : k'.core = k.core) :
    k.Serving k' f.fd o o.pos (k.inode o.ino).bytes := by
  have hfds : k'.fds = k.fds := show k'.core.fds = k.core.fds by rw [hcore]
  have hinode : k'.inode = k.inode := show k'.core.inode = k.core.inode by rw [hcore]
  refine ⟨Linux.fs_eq_of_core hcore, le_of_eq ?_, ?_, ?_, ?_, ?_, ?_, ?_, ?_⟩
  · exact show k.core.nextFd = k'.core.nextFd by rw [hcore]
  · exact show k'.core.nextIno = k.core.nextIno by rw [hcore]
  · rw [hfds, (Linux.fds_of_fd ho).2]
  · intro n _
    rw [hfds]
    exact .inl rfl
  · intro i
    rw [hinode]
  · rw [hinode]
  · intro i _
    rw [hinode]
  · rw [hinode]
    exact hk.tidy

theorem Handled.idle (hs : k.Serving k' f.fd o o.pos (k.inode o.ino).bytes) (hfd : f'.fd = f.fd)
    (hstat : f'.statBuf = f.statBuf)
    (haccess : k.access short f r ⟨status, size, io, position⟩ = []) :
    Handled short k f o r (⟨status, size, io, position⟩, .kept f') k' :=
  ⟨⟨f', rfl, hfd, hstat⟩, o.pos, _, hs, .inl ⟨haccess, rfl, rfl⟩⟩

theorem Linux.access_directory (hf : f.regular = false) (x : Reply) :
    k.access short f r x = [] := by
  unfold Linux.access
  split
  · simp [hf]
  · rfl

theorem Linux.access_regular (ho : k.fd f.fd = some o) (hf : f.regular = true) (x : Reply) :
    k.access short f r x = o.access short (k.inode o.ino).size f.fd r x := by
  simp [Linux.access, ho, hf]

@[simp] theorem Inode.length_bytes (i : Inode) : i.bytes.length = i.size := by simp [Inode.bytes]

theorem Inode.getD_bytes (i : Inode) (htidy : ∀ n, i.size ≤ n → i.content n = 0) (n : Nat) :
    i.bytes[n]?.getD 0 = i.content n := by
  by_cases hn : n < i.size
  · simp [Inode.bytes, hn]
  · simp [Inode.bytes, hn, htidy n (Nat.not_lt.mp hn)]

theorem Linux.Serving.of_core {k₁ : Linux} {pos : Nat} {data : Bytes}
    (h : k.Serving k₁ f.fd o pos data) (hcore : k'.core = k₁.core) :
    k.Serving k' f.fd o pos data := by
  have hfds : k'.fds = k₁.fds := show k'.core.fds = k₁.core.fds by rw [hcore]
  have hinode : k'.inode = k₁.inode := show k'.core.inode = k₁.core.inode by rw [hcore]
  have hnextFd : k'.nextFd = k₁.nextFd := show k'.core.nextFd = k₁.core.nextFd by rw [hcore]
  have hnextIno : k'.nextIno = k₁.nextIno := show k'.core.nextIno = k₁.core.nextIno by rw [hcore]
  refine ⟨(Linux.fs_eq_of_core hcore).trans h.fs, h.nextFd.trans_eq hnextFd.symm,
    hnextIno.trans h.nextIno, ?_, ?_, ?_, ?_, ?_, ?_⟩
  · rw [hfds]
    exact h.own
  · rw [hfds]
    exact h.others
  · rw [hinode]
    exact h.kind
  · rw [hinode]
    exact h.bytes
  · rw [hinode]
    exact h.bytes'
  · rw [hinode]
    exact h.tidy

theorem Linux.serving_setFd (hk : k.Sound) (pos : Nat) :
    k.Serving (k.setFd f.fd (some { o with pos := pos })) f.fd o pos (k.inode o.ino).bytes :=
  ⟨rfl, le_rfl, rfl, Function.update_self _ _ _, fun _ hn => .inl (Function.update_of_ne hn _ _),
    fun _ => rfl, rfl, fun _ _ => rfl, hk.tidy⟩

theorem Linux.Serving.install {k₁ : Linux} {fd : Int} {pos : Nat} {data : Bytes}
    {p : List Name} {n : FsNode} (h : k.Serving k₁ fd o pos data) (hk : k.Sound)
    (hlt : fd.toNat < k.nextFd) (hn : k₁.fs.node p = some n) (flags : Nat) :
    k.Serving (k₁.install p n flags).2 fd o pos data := by
  have hle := h.nextFd
  have hino : n.ino < k.nextIno := hk.nodes p n (by rwa [← h.fs])
  refine ⟨h.fs, hle.trans (Nat.le_succ _), h.nextIno, ?_, fun m hm => ?_, h.kind, h.bytes,
    h.bytes', h.tidy⟩
  · have hne : fd.toNat ≠ k₁.nextFd := by omega
    exact (Function.update_of_ne hne _ _).trans h.own
  · by_cases hnew : m = k₁.nextFd
    · refine .inr ⟨by omega, fun o' ho' => ?_⟩
      simp only [Linux.install, hnew, Function.update_self, Option.some.injEq] at ho'
      rwa [← ho']
    · have hsame : (k₁.install p n flags).2.fds m = k₁.fds m := Function.update_of_ne hnew _ _
      rw [hsame]
      exact h.others m hm

theorem Linux.Serving.openat {k₁ : Linux} {fd : Int} {pos : Nat} {data : Bytes}
    (h : k.Serving k₁ fd o pos data) (hk : k.Sound) (hlt : fd.toNat < k.nextFd)
    (dir : List Name) (name : Bytes) (flags : Nat) :
    k.Serving (k₁.openat dir name flags).2 fd o pos data ∧
      (0 ≤ (k₁.openat dir name flags).1 → k.nextFd ≤ (k₁.openat dir name flags).1.toNat) := by
  have hfails : ∀ rc : Int, ¬0 ≤ rc → k.Serving (rc, k₁).2 fd o pos data ∧
      (0 ≤ (rc, k₁).1 → k.nextFd ≤ (rc, k₁).1.toNat) := fun rc hrc =>
    ⟨h, fun hpos => absurd hpos hrc⟩
  unfold Linux.openat
  split
  · next p _ =>
    split
    · exact hfails _ (by decide)
    · next n hn =>
      split
      · exact hfails _ (by decide)
      · exact ⟨h.install hk hlt hn flags, fun _ => h.nextFd⟩
  · exact hfails _ (by decide)
  · next e _ => exact hfails _ (by cases e <;> decide)

theorem Linux.Serving.close {k₁ : Linux} {fd fd' : Int} {pos : Nat} {data : Bytes}
    (h : k.Serving k₁ fd o pos data) (hlt : fd.toNat < k.nextFd) (hnew : k.nextFd ≤ fd'.toNat) :
    k.Serving (k₁.close fd').2 fd o pos data := by
  unfold Linux.close
  split
  · exact h
  · refine ⟨h.fs, h.nextFd, h.nextIno, ?_, fun m hm => ?_, h.kind, h.bytes, h.bytes', h.tidy⟩
    · have hne : fd.toNat ≠ fd'.toNat := by omega
      exact (Function.update_of_ne hne _ _).trans h.own
    · by_cases hfd : m = fd'.toNat
      · refine .inr ⟨by omega, fun o' ho' => ?_⟩
        simp [Linux.setFd, hfd] at ho'
      · have hsame : (k₁.setFd fd' none).fds m = k₁.fds m := Function.update_of_ne hfd _ _
        rw [hsame]
        exact h.others m hm

def Call.lists (n : Nat) : Call → Bool
  | .sysOpenat _ _ _ _ | .sysFstat _ | .fdopendir _ | .readdir _ | .errdir _ => true
  | .sysClose fd => n ≤ fd.toNat
  | _ => false

theorem Linux.Serving.always {α : Type} {p : Lkl α} {k₁ : Linux} {fd : Int} {pos : Nat}
    {data : Bytes} (h : k.Serving k₁ fd o pos data) (hk : k.Sound) (hlt : fd.toNat < k.nextFd)
    (hp : p.Only fun c => c.lists k.nextFd = true) :
    (Linux.answering short).Always p (fun _ k' => k.Serving k' fd o pos data) k₁ := by
  refine Env.always_of_invariant (I := fun k' => k.Serving k' fd o pos data) ?_ hp h
  rintro g c x g' hc hg (hx | ⟨-, rfl⟩)
  · cases c with
    | sysClose fd' =>
      obtain ⟨-, rfl⟩ := Prod.mk.inj hx
      exact hg.close hlt (of_decide_eq_true hc)
    | sysOpenat fd' name flags mode =>
      obtain ⟨dir, heq⟩ := hx
      obtain ⟨-, rfl⟩ := Prod.mk.inj heq
      exact (hg.openat hk hlt dir name flags).1
    | sysFstat fd' =>
      obtain ⟨-, rfl⟩ := Prod.mk.inj hx
      exact hg
    | fdopendir | readdir | errdir =>
      obtain rfl : g' = g := hx
      exact hg
    | _ => cases hc
  · exact ⟨hg.fs, hg.nextFd, hg.nextIno, hg.own, hg.others, hg.kind, hg.bytes, hg.bytes', hg.tidy⟩

theorem entryInfo_serving {k₁ : Linux} {fd : Int} {pos : Nat} {data : Bytes}
    (h : k.Serving k₁ fd o pos data) (hk : k.Sound) (hlt : fd.toNat < k.nextFd) (w : Nat)
    (g : LklIfile) (n : Nat) (name : Bytes) :
    (Linux.answering short).Always (entryInfo w g n name)
      (fun _ k' => k.Serving k' fd o pos data) k₁ := by
  refine Linux.always_answering_ask.mpr ⟨?_, fun (fd' : Int) hfd' => ?_⟩
  · rintro fd' k₂ ⟨dir, heq⟩
    obtain ⟨h₂, hnew⟩ := h.openat hk hlt dir name O_RDONLY
    rw [← heq] at h₂ hnew
    split
    · next hfd' =>
      refine h₂.always hk hlt (Prog.Only.bind ?_ fun x => ?_)
      · refine Prog.only_ask_bind.mpr ⟨rfl, fun x => ?_⟩
        dsimp only
        split <;> trivial
      · exact ⟨decide_eq_true (hnew hfd'), fun _ => trivial⟩
    · exact h₂
  · have hneg : fd' < 0 := of_decide_eq_true hfd'
    rw [if_neg (by omega)]
    exact ⟨h.fs, h.nextFd, h.nextIno, h.own, h.others, h.kind, h.bytes, h.bytes', h.tidy⟩

theorem lklIFileReadDir_serving {k₁ : Linux} {fd : Int} {pos : Nat} {data : Bytes}
    (h : k.Serving k₁ fd o pos data) (hk : k.Sound) (hlt : fd.toNat < k.nextFd) (w : Nat)
    (g : LklIfile) (bufferSize : Nat) :
    (Linux.answering short).Always (lklIFileReadDir w g bufferSize)
      (fun _ k' => k.Serving k' fd o pos data) k₁ := by
  have hopen : (openDir g).Only fun c => c.lists k.nextFd = true := by
    unfold openDir
    cases g.dir with
    | some dir => trivial
    | none =>
      refine Prog.only_ask_bind.mpr ⟨rfl, fun x => ?_⟩
      obtain ⟨dir, rc⟩ := x
      cases dir <;> trivial
  refine Env.always_bind.mpr ((h.always hk hlt hopen).mono fun r k₂ h₂ => ?_)
  cases r with
  | error status => exact h₂
  | ok dir =>
    refine Env.always_bind.mpr ((h₂.always hk hlt ?_).mono fun entry k₃ h₃ => ?_)
    · cases g.dirEnt with
      | none => exact ⟨rfl, fun _ => trivial⟩
      | some name => trivial
    · cases entry with
      | none =>
        refine h₃.always hk hlt (Prog.only_ask_bind.mpr ⟨rfl, fun err => ?_⟩)
        split <;> trivial
      | some name =>
        dsimp only
        split
        · exact h₃
        · exact Env.always_bind.mpr ((entryInfo_serving h₃ hk hlt w _ _ name).mono
            fun _ _ h₄ => h₄)

theorem lklIFileReadDir_keeps (w : Nat) (f : LklIfile) (bufferSize : Nat) :
    (lklIFileReadDir w f bufferSize).Ends fun x =>
      x.2.2.2.fd = f.fd ∧ x.2.2.2.statBuf = f.statBuf := by
  refine Prog.Ends.bind Prog.ends_true fun r _ => ?_
  cases r with
  | error status => exact ⟨rfl, rfl⟩
  | ok dir =>
    refine Prog.Ends.bind Prog.ends_true fun entry _ => ?_
    cases entry with
    | none =>
      refine Prog.ends_ask_bind.mpr fun err => ?_
      split <;> exact ⟨rfl, rfl⟩
    | some name =>
      dsimp only
      split
      · exact ⟨rfl, rfl⟩
      · exact Prog.Ends.bind Prog.ends_true fun _ _ => ⟨rfl, rfl⟩

theorem read_served (hk : k.Sound) (ho : k.fd f.fd = some o) (hlt : f.fd.toNat < k.nextFd)
    (hkind : isDirMode f.statBuf.mode = (k.inode o.ino).isDir) (bufferSize : Nat) :
    (Linux.answering short).Always (Request.reply w f (.read bufferSize))
      (fun x k' => Handled short k f o (.read bufferSize) x k') k := by
  have hself := Linux.serving_of_core hk ho (rfl : k.core = k.core)
  refine Env.always_bind.mpr ?_
  unfold lklRead lklIFileAccess
  rw [if_neg (by simp), if_neg (by simp)]
  by_cases hdir : isDirMode f.statBuf.mode = true
  · rw [if_pos hdir]
    refine Env.always_bind.mpr (((lklIFileReadDir_serving hself hk hlt w f bufferSize).and
      (lklIFileReadDir_keeps w f bufferSize).always).mono ?_)
    rintro ⟨status, size, info, f'⟩ k' ⟨hs, hfd, hstat⟩
    exact .idle hs hfd hstat (Linux.access_directory (by simp [LklIfile.regular, hdir]) _)
  have hregular : f.regular = true := by simp [LklIfile.regular, hdir]
  rw [if_neg hdir, if_neg (by decide)]
  refine Linux.always_answering_ask.mpr ⟨?_, fun x hx => ?_⟩
  · rintro x k' ⟨n, -, hwhole, heq⟩
    have hfile : ¬(k.inode o.ino).isDir = true := by rwa [← hkind]
    have hread : k.read f.fd n =
        (.ok ((List.range (min n ((k.inode o.ino).size - o.pos))).map fun j =>
          (k.inode o.ino).content (o.pos + j)),
        k.setFd f.fd (some { o with pos := o.pos + min n ((k.inode o.ino).size - o.pos) })) := by
      simp [Linux.read, ho, hfile]
    rw [hread] at heq
    obtain ⟨rfl, rfl⟩ := Prod.mk.inj heq
    refine ⟨⟨f, rfl, rfl, rfl⟩, o.pos + min n ((k.inode o.ino).size - o.pos),
      (k.inode o.ino).bytes, Linux.serving_setFd hk _, ?_⟩
    rw [Linux.access_regular ho hregular]
    refine .inr ⟨_, rfl, fun S hcursor hbytes => ⟨⟨⟨_, hcursor⟩, ?_⟩, ?_⟩⟩
    · rw [hbytes]
      have hlen : min (if short then min n ((k.inode o.ino).size - o.pos) else bufferSize)
          ((k.inode o.ino).size - o.pos) = min n ((k.inode o.ino).size - o.pos) := by
        cases short with
        | true => simp
        | false => simp [hwhole rfl]
      refine List.ext_getElem ?_ fun j hj hj' => ?_
      · simp [hlen]
      · simp [Inode.bytes]
    · simp [Access.apply, ← hbytes]
  · obtain rc | data := x
    · exact .idle (hself.of_core rfl) rfl rfl
        (by simp [Linux.access_regular ho hregular, OpenFile.access])
    · cases hx

theorem Linux.serving_write (hk : k.Sound) (ho : k.fd f.fd = some o)
    (hflags : ¬o.flags &&& 3 = O_RDONLY) (new : Bytes) :
    (k.write f.fd new).1 = new.length ∧
      k.Serving (k.write f.fd new).2 f.fd o (o.pos + new.length)
        (splice 0 (k.inode o.ino).bytes o.pos new) := by
  have hwrite : k.write f.fd new = ((new.length : Int), (k.setInode o.ino
      { k.inode o.ino with
        size := max (k.inode o.ino).size (o.pos + new.length)
        mtime := k.now
        content := fun n => if o.pos ≤ n ∧ n < o.pos + new.length then
          new.getD (n - o.pos) 0 else (k.inode o.ino).content n }).setFd f.fd
        (some { o with pos := o.pos + new.length })) := by
    simp [Linux.write, ho, hflags]
  have htidy := hk.tidy o.ino
  rw [hwrite]
  refine ⟨rfl, rfl, le_rfl, rfl, Function.update_self _ _ _,
    fun n hn => .inl (Function.update_of_ne hn _ _), fun i => ?_, ?_, fun i hi => ?_,
    fun i n hn => ?_⟩
  · by_cases hi : i = o.ino <;> simp [Linux.setFd, Linux.setInode, hi]
  · refine ext_getD 0 ?_ fun n => ?_
    · simp [Linux.setFd, Linux.setInode]
    · rw [getD_splice, (k.inode o.ino).getD_bytes htidy, Inode.getD_bytes]
      · simp [Linux.setFd, List.getD_eq_getElem?_getD]
      · intro n hn
        simp only [Linux.setFd, Linux.inode_setInode_self] at hn ⊢
        rw [if_neg (by omega), htidy n (by omega)]
  · simp [Linux.setFd, Linux.setInode, hi]
  · by_cases hi : i = o.ino
    · subst hi
      simp only [Linux.setFd, Linux.inode_setInode_self] at hn ⊢
      rw [if_neg (by omega), htidy n (by omega)]
    · simp only [Linux.setFd, Linux.inode_setInode_of_ne _ _ hi] at hn ⊢
      exact hk.tidy i n hn

theorem Linux.access_write (ho : k.fd f.fd = some o) (hf : f.regular = true) {buffer : Bytes}
    {n : Nat} (hwhole : short = false → buffer.length ≤ n) (hnil : ¬buffer.take n = []) :
    k.access short f (.write buffer) ⟨.success, (buffer.take n).length, .none, none⟩ =
      [.write f.fd o.ino o.pos (buffer.take n)] := by
  have hpos : 0 < (buffer.take n).length := List.length_pos_iff.mpr hnil
  have hdata : (if short then buffer.take (buffer.take n).length else buffer) =
      buffer.take n := by
    cases short with
    | true => simp [List.take_eq_take_iff]
    | false => simp [List.take_of_length_le (hwhole rfl)]
  rw [Linux.access_regular ho hf, OpenFile.access]
  dsimp only
  rw [if_pos ⟨rfl, hpos⟩, hdata]

theorem write_served (hk : k.Sound) (ho : k.fd f.fd = some o) (buffer : Bytes) :
    (Linux.answering short).Always (Request.reply w f (.write buffer))
      (fun x k' => Handled short k f o (.write buffer) x k') k := by
  have hself := Linux.serving_of_core hk ho (rfl : k.core = k.core)
  refine Env.always_bind.mpr ?_
  unfold lklWrite lklIFileAccess
  by_cases hdir : isDirMode f.statBuf.mode = true
  · rw [if_pos ⟨hdir, rfl⟩]
    exact .idle hself rfl rfl (Linux.access_directory (by simp [LklIfile.regular, hdir]) _)
  have hregular : f.regular = true := by simp [LklIfile.regular, hdir]
  rw [if_neg fun h => hdir h.1]
  have herror : ∀ (status : EfiStatus) (size : Nat), ¬(status = .success ∧ 0 < size) →
      k.access short f (.write buffer) ⟨status, size, .none, none⟩ = [] := by
    intro status size hnone
    simp only [Linux.access_regular ho hregular, OpenFile.access, if_neg hnone]
  by_cases hro : f.volume.readOnly = true
  · rw [if_pos ⟨rfl, hro⟩]
    exact .idle hself rfl rfl (herror _ _ fun h => EfiStatus.noConfusion h.1)
  rw [if_neg fun h => hro h.2, if_neg hdir, if_pos rfl]
  have hfails : ∀ (rc : Int) (k' : Linux) (size : Nat), rc < 0 → k'.core = k.core →
      Handled short k f o (.write buffer) (⟨lklError2EfiError rc, size, .none, none⟩, .kept f)
        k' := by
    intro rc k' size hrc hcore
    refine .idle (hself.of_core hcore) rfl rfl (herror _ _ fun h => ?_)
    have := lklError2EfiError_eq_success.mp h.1
    omega
  refine Linux.always_answering_ask.mpr ⟨?_, fun (rc : Int) hrc => ?_⟩
  swap
  · have hneg : rc < 0 := of_decide_eq_true hrc
    rw [if_pos hneg]
    exact hfails rc _ _ hneg rfl
  rintro rc k' ⟨n, hwhole, heq⟩
  by_cases hnil : buffer.take n = []
  · rw [Linux.writeSome, if_pos hnil] at heq
    obtain ⟨rfl, rfl⟩ := Prod.mk.inj heq
    rw [if_neg (lt_irrefl 0)]
    exact .idle hself rfl rfl (herror _ _ fun h => absurd h.2 (lt_irrefl 0))
  rw [Linux.writeSome, if_neg hnil] at heq
  by_cases hflags : o.flags &&& 3 = O_RDONLY
  · have hwrite : k.write f.fd (buffer.take n) = (-EBADF, k) := by simp [Linux.write, ho, hflags]
    have hneg : -EBADF < 0 := by decide
    rw [hwrite] at heq
    obtain ⟨rfl, rfl⟩ := Prod.mk.inj heq
    rw [if_pos hneg]
    exact hfails _ _ _ hneg rfl
  obtain ⟨hcount, hserving⟩ := Linux.serving_write hk ho hflags (buffer.take n)
  rw [← heq] at hcount hserving
  dsimp only at hcount hserving
  subst hcount
  rw [if_neg (show ¬((buffer.take n).length : Int) < 0 by omega)]
  refine ⟨⟨f, rfl, rfl, rfl⟩, _, _, hserving, .inr ⟨.write f.fd o.ino o.pos (buffer.take n),
    Linux.access_write ho hregular hwhole hnil, fun S hcursor hbytes => ⟨?_, ?_⟩⟩⟩
  · simp [Access.Fits, hcursor, OpenFile.cursor, hflags]
  · simp [Access.apply, hbytes]

theorem getPosition_served (hk : k.Sound) (ho : k.fd f.fd = some o) :
    Linux.faulty.Always (Request.reply w f .getPosition)
      (fun x k' => Handled short k f o .getPosition x k') k := by
  have hself := Linux.serving_of_core hk ho (rfl : k.core = k.core)
  have hfails : ∀ (rc : Int) (k' : Linux), k'.core = k.core →
      Handled short k f o .getPosition (⟨lklError2EfiError rc, 0, .none, none⟩, .kept f) k' := by
    intro rc k' hcore
    refine .idle (hself.of_core hcore) rfl rfl ?_
    unfold Linux.access
    split
    · split <;> rfl
    · rfl
  refine Env.always_bind.mpr (Linux.always_lseek ?_ fun rc hrc => ?_)
  swap
  · rw [if_pos hrc]
    exact hfails rc _ rfl
  have hseek : k.lseek f.fd 0 SEEK_CUR =
      ((o.pos : Int), k.setFd f.fd (some { o with pos := o.pos })) := by
    simp [Linux.lseek, ho, SEEK_CUR, SEEK_SET]
  have hpos : ¬(o.pos : Int) < 0 := by omega
  rw [hseek, if_neg hpos]
  refine ⟨⟨f, rfl, rfl, rfl⟩, o.pos, _, Linux.serving_setFd hk o.pos, ?_⟩
  cases hregular : f.regular with
  | false => exact .inl ⟨Linux.access_directory hregular _, rfl, rfl⟩
  | true =>
    rw [Linux.access_regular ho hregular]
    refine .inr ⟨_, rfl, fun S hcursor hbytes => ⟨⟨_, hcursor⟩, ?_⟩⟩
    rw [← hbytes, Store.put_self]
    exact (Store.move_self fun _ ho => by rw [← Option.some.inj (hcursor.symm.trans ho)]; rfl).symm

theorem toNat_of_toInt64_nonneg {position : UInt64} (h : 0 ≤ position.toInt64.toInt) :
    position.toInt64.toInt.toNat = position.toNat := by
  have hint : position.toInt64.toInt = position.toBitVec.toInt := rfl
  rw [hint, BitVec.toInt_eq_toNat_cond] at h ⊢
  have hnat : position.toBitVec.toNat = position.toNat := rfl
  split at h <;> omega

theorem setPosition_directory (hk : k.Sound) (ho : k.fd f.fd = some o)
    (hdir : isDirMode f.statBuf.mode = true) (position : UInt64) :
    Linux.faulty.Always (lklSetPosition f position) (fun x k' =>
      Handled short k f o (.setPosition position) (⟨x.1, 0, .none, none⟩, .kept x.2) k') k := by
  have hidle : ∀ (status : EfiStatus) (f' : LklIfile), f'.fd = f.fd → f'.statBuf = f.statBuf →
      Handled short k f o (.setPosition position) (⟨status, 0, .none, none⟩, .kept f') k := by
    intro status f' hfd hstat
    exact .idle (Linux.serving_of_core hk ho rfl) hfd hstat
      (Linux.access_directory (by simp [LklIfile.regular, hdir]) _)
  unfold lklSetPosition
  rw [if_pos hdir]
  by_cases hzero : position = 0
  · rw [if_pos hzero]
    cases f.dir with
    | none => exact hidle _ _ rfl rfl
    | some dir => exact Linux.always_ask.mpr ⟨hidle _ _ rfl rfl, fun _ hx => Bool.noConfusion hx⟩
  · rw [if_neg hzero]
    exact hidle _ _ rfl rfl

theorem lseek_served (hk : k.Sound) (ho : k.fd f.fd = some o) (hregular : f.regular = true)
    {position : UInt64} {off : Int} {whence : Nat}
    (hok : 0 ≤ (k.lseek f.fd off whence).1 → (k.lseek f.fd off whence).2 =
      k.setFd f.fd (some { o with pos := targetPosition (k.inode o.ino).size position }))
    (hbad : (k.lseek f.fd off whence).1 < 0 → (k.lseek f.fd off whence).2 = k) :
    Linux.faulty.Always (do
      let newPosition ← lklSysLseek f.fd off whence
      if newPosition < 0 then .ret (lklError2EfiError newPosition, f) else .ret (.success, f))
      (fun x k' =>
        Handled short k f o (.setPosition position) (⟨x.1, 0, .none, none⟩, .kept x.2) k') k := by
  have hfails : ∀ (rc : Int) (k' : Linux), rc < 0 → k'.core = k.core →
      Handled short k f o (.setPosition position)
        (⟨lklError2EfiError rc, 0, .none, none⟩, .kept f) k' := by
    intro rc k' hrc hcore
    have hne : lklError2EfiError rc ≠ .success := by
      intro h
      have := lklError2EfiError_eq_success.mp h
      omega
    exact .idle (Linux.serving_of_core hk ho hcore) rfl rfl
      (by simp [Linux.access_regular ho hregular, OpenFile.access, hne])
  have hmoves : ∀ pos : Nat, pos = targetPosition (k.inode o.ino).size position →
      Handled short k f o (.setPosition position) (⟨.success, 0, .none, none⟩, .kept f)
        (k.setFd f.fd (some { o with pos := pos })) := by
    intro pos hpos
    refine ⟨⟨f, rfl, rfl, rfl⟩, pos, _, Linux.serving_setFd hk pos, ?_⟩
    rw [Linux.access_regular ho hregular]
    refine .inr ⟨.seek f.fd o.ino pos, by simp [OpenFile.access, hpos],
      fun S hcursor hbytes => ⟨⟨_, _, hcursor⟩, ?_⟩⟩
    rw [← hbytes, Store.put_self]
    rfl
  refine Linux.always_lseek ?_ fun rc hrc => ?_
  · by_cases hneg : (k.lseek f.fd off whence).1 < 0
    · rw [if_pos hneg, hbad hneg]
      exact hfails _ k hneg rfl
    · rw [if_neg hneg, hok (by omega)]
      exact hmoves _ rfl
  · rw [if_pos hrc]
    exact hfails rc _ hrc rfl

theorem setPosition_served (hk : k.Sound) (ho : k.fd f.fd = some o) (position : UInt64) :
    Linux.faulty.Always (Request.reply w f (.setPosition position))
      (fun x k' => Handled short k f o (.setPosition position) x k') k := by
  refine Env.always_bind.mpr (Env.always_bind.mpr ?_)
  by_cases hdir : isDirMode f.statBuf.mode = true
  · exact setPosition_directory hk ho hdir position
  have hregular : f.regular = true := by simp [LklIfile.regular, hdir]
  unfold lklSetPosition
  rw [if_neg hdir]
  by_cases hend : position = 0xffffffffffffffff
  · rw [if_pos hend]
    have hlseek : k.lseek f.fd 0 SEEK_END = (((k.inode o.ino).size : Int),
        k.setFd f.fd (some { o with pos := (k.inode o.ino).size })) := by
      simp [Linux.lseek, ho, SEEK_END, SEEK_SET, SEEK_CUR]
    refine lseek_served hk ho hregular (fun _ => ?_) fun hneg => ?_
    · rw [hlseek, targetPosition, if_pos hend]
    · rw [hlseek] at hneg
      omega
  · rw [if_neg hend]
    by_cases hneg : position.toInt64.toInt < 0
    · have hlseek : k.lseek f.fd position.toInt64.toInt SEEK_SET = (-EINVAL, k) := by
        simp [Linux.lseek, ho, hneg]
      have hinvalid : ¬(0 : Int) ≤ -EINVAL := by decide
      exact lseek_served hk ho hregular (fun h => absurd h (by rwa [hlseek])) fun _ => by
        rw [hlseek]
    · have hlseek : k.lseek f.fd position.toInt64.toInt SEEK_SET = (position.toInt64.toInt,
          k.setFd f.fd (some { o with pos := position.toNat })) := by
        simp [Linux.lseek, ho, hneg, toNat_of_toInt64_nonneg (not_lt.mp hneg)]
      refine lseek_served hk ho hregular (fun _ => ?_) fun h => ?_
      · rw [hlseek, targetPosition, if_neg hend]
      · rw [hlseek] at h
        exact absurd h hneg

theorem Linux.Serving.setInode {k₁ : Linux} {pos ino : Nat} {data : Bytes} {i : Inode}
    (h : k.Serving k₁ f.fd o pos data) (hkind : i.isDir = (k₁.inode ino).isDir)
    (hsize : i.size = (k₁.inode ino).size) (hcontent : i.content = (k₁.inode ino).content) :
    k.Serving (k₁.setInode ino i) f.fd o pos data := by
  have hsame : ∀ j, ((k₁.setInode ino i).inode j).isDir = (k₁.inode j).isDir ∧
      ((k₁.setInode ino i).inode j).size = (k₁.inode j).size ∧
      ((k₁.setInode ino i).inode j).content = (k₁.inode j).content := by
    intro j
    by_cases hj : j = ino
    · subst hj
      rw [Linux.inode_setInode_self]
      exact ⟨hkind, hsize, hcontent⟩
    · rw [Linux.inode_setInode_of_ne _ _ hj]
      exact ⟨rfl, rfl, rfl⟩
  have hbytes : ∀ j, ((k₁.setInode ino i).inode j).bytes = (k₁.inode j).bytes := by
    intro j
    rw [Inode.bytes, (hsame j).2.1, (hsame j).2.2, Inode.bytes]
  refine ⟨h.fs, h.nextFd, h.nextIno, h.own, h.others, ?_, ?_, ?_, ?_⟩
  · intro j
    rw [(hsame j).1, h.kind]
  · rw [hbytes, h.bytes]
  · intro j hj
    rw [hbytes, h.bytes' j hj]
  · intro j n hn
    rw [(hsame j).2.1] at hn
    rw [(hsame j).2.2, h.tidy j n hn]

theorem applyTime_serving {k₁ : Linux} {pos : Nat} {data : Bytes}
    (h : k.Serving k₁ f.fd o pos data) (volume : LklVolume) (actime modtime : Nat) :
    Linux.faulty.Always (applyTime volume f actime modtime)
      (fun _ k' => k.Serving k' f.fd o pos data) k₁ := by
  have hutime : ∀ (k₂ : Linux) (path : Option Bytes) (ptr : Ptr), k₂.core = k₁.core →
      Linux.faulty.Always (do
        let rc ← lklSysUtime path actime modtime
        freePool ptr
        pure rc) (fun _ k' => k.Serving k' f.fd o pos data) k₂ := by
    intro k₂ path ptr hcore
    refine Linux.always_ask.mpr ⟨?_, fun rc _ => ?_⟩
    · rw [Linux.always_freePool]
      have h₂ := h.of_core hcore
      simp only [Linux.handle, Linux.utime]
      split
      · exact h₂
      · split
        · exact h₂
        · exact h₂.setInode rfl rfl rfl
    · rw [Linux.always_freePool]
      exact h.of_core hcore
  exact Linux.always_allocatePool (hutime _ _ _ rfl) (hutime _ _ _ rfl)

def Resizes (k : Linux) (f : LklIfile) (o : OpenFile) (info : EfiFileInfo) (status : EfiStatus)
    (k' : Linux) : Prop :=
  status ≠ .success ∧ k.Serving k' f.fd o o.pos (k.inode o.ino).bytes ∨
    status = .success ∧
      k.Serving k' f.fd o o.pos (resize 0 (k.inode o.ino).bytes info.fileSize) ∧
      ((k.inode o.ino).isDir = false ∧ o.flags &&& 3 ≠ O_RDONLY ∨
        info.fileSize = (k.inode o.ino).size)

theorem applySize_resizes {k₁ : Linux} {st : Stat} {readOnly isDirectory : UInt8}
    {info : EfiFileInfo} (h : k.Serving k₁ f.fd o o.pos (k.inode o.ino).bytes)
    (hsize : st.size = (k.inode o.ino).size) (hpos : 0 ≤ f.fd) :
    Linux.faulty.Always (applySize f st readOnly isDirectory info) (Resizes k f o info) k₁ := by
  unfold applySize
  by_cases hne : info.fileSize ≠ st.size
  swap
  · rw [if_neg hne]
    have heq : info.fileSize = (k.inode o.ino).size := (not_not.mp hne).trans hsize
    refine .inr ⟨rfl, ?_, .inr heq⟩
    rwa [heq, ← Inode.length_bytes, resize_length]
  rw [if_pos hne]
  by_cases hdenied : isDirectory ≠ 0 ∨ readOnly ≠ 0
  · rw [if_pos hdenied]
    exact .inl ⟨by decide, h⟩
  rw [if_neg hdenied]
  have hfails : ∀ (rc : Int) (k' : Linux), rc ≠ 0 → k'.core = k₁.core →
      Resizes k f o info (lklError2EfiError rc) k' := fun rc k' hrc hcore =>
    .inl ⟨fun h => hrc (lklError2EfiError_eq_success.mp h), h.of_core hcore⟩
  refine Linux.always_ask.mpr ⟨?_, fun (rc : Int) hrc => ?_⟩
  swap
  · have hneg : rc < 0 := of_decide_eq_true hrc
    have hrc' : rc ≠ 0 := by omega
    rw [if_pos hrc']
    exact hfails rc _ hrc' rfl
  have hfd : k₁.fd f.fd = some o := by rw [Linux.fd_eq_fds hpos, h.own]
  by_cases hinvalid : (k₁.inode o.ino).isDir = true ∨ o.flags &&& 3 = O_RDONLY
  · have htruncate : Linux.handle (.sysFtruncate f.fd info.fileSize) k₁ =
        ((-EINVAL : Int), k₁) := by
      simp [Linux.handle, Linux.ftruncate, hfd, hinvalid]
    have hrc : (-EINVAL : Int) ≠ 0 := by decide
    rw [htruncate, if_pos hrc]
    exact hfails _ k₁ hrc rfl
  have htruncate : Linux.handle (.sysFtruncate f.fd info.fileSize) k₁ =
      ((0 : Int), k₁.setInode o.ino { k₁.inode o.ino with
        size := info.fileSize
        mtime := k₁.now
        content := fun n => if n < info.fileSize then (k₁.inode o.ino).content n else 0 }) := by
    simp [Linux.handle, Linux.ftruncate, hfd, hinvalid]
  have hzero : ¬(0 : Int) ≠ 0 := by decide
  rw [htruncate, if_neg hzero]
  refine .inr ⟨rfl, ⟨h.fs, h.nextFd, h.nextIno, h.own, h.others, fun i => ?_, ?_, fun i hi => ?_,
    fun i n hn => ?_⟩, .inl ⟨?_, fun hflags => hinvalid (.inr hflags)⟩⟩
  · rw [← h.kind]
    by_cases hi : i = o.ino <;> simp [Linux.setInode, hi]
  · have htidy := h.tidy o.ino
    rw [← h.bytes]
    refine ext_getD 0 (by simp) fun n => ?_
    rw [getD_resize, (k₁.inode o.ino).getD_bytes htidy, Inode.getD_bytes]
    · simp
    · intro n hn
      simp only [Linux.inode_setInode_self] at hn ⊢
      rw [if_neg (by omega)]
  · rw [Linux.inode_setInode_of_ne _ _ hi, h.bytes' i hi]
  · by_cases hi : i = o.ino
    · subst hi
      simp only [Linux.inode_setInode_self] at hn ⊢
      rw [if_neg (by omega)]
    · rw [Linux.inode_setInode_of_ne _ _ hi] at hn ⊢
      exact h.tidy i n hn
  · rw [← h.kind]
    exact Bool.eq_false_iff.mpr fun hdir => hinvalid (.inl hdir)

theorem applyAttributes_resizes {k₁ : Linux} {st : Stat} {readOnly isDirectory : UInt8}
    {info : EfiFileInfo} (h : k.Serving k₁ f.fd o o.pos (k.inode o.ino).bytes)
    (hsize : st.size = (k.inode o.ino).size) (hpos : 0 ≤ f.fd) :
    Linux.faulty.Always (applyAttributes f st readOnly isDirectory info) (Resizes k f o info)
      k₁ := by
  unfold applyAttributes
  split
  · exact .inl ⟨by decide, h⟩
  dsimp only
  split
  · exact .inl ⟨by decide, h⟩
  have hrest : ∀ (rc : Int) (k₂ : Linux), k.Serving k₂ f.fd o o.pos (k.inode o.ino).bytes →
      Linux.faulty.Always (if rc ≠ 0 then pure (lklError2EfiError rc)
        else applySize f st readOnly isDirectory info) (Resizes k f o info) k₂ := by
    intro rc k₂ h₂
    split
    · next hrc => exact .inl ⟨fun h => hrc (lklError2EfiError_eq_success.mp h), h₂⟩
    · exact applySize_resizes h₂ hsize hpos
  split
  · refine Linux.always_chmod ?_ fun rc _ => hrest rc _ (h.of_core rfl)
    refine hrest _ _ ?_
    unfold Linux.chmod
    split
    · exact h
    · exact h.setInode rfl rfl rfl
  · exact hrest 0 k₁ h

theorem newModtime_failed {w : Nat} {readOnly : Bool} {t : EfiTime} {modtime : Nat × Bool}
    (h : newModtime w readOnly t modtime = .error status) : status ≠ .success := by
  unfold newModtime at h
  split at h
  · cases h
  split at h
  · cases h
    decide
  split at h
  · cases h
  dsimp only at h
  split at h <;> cases h

theorem newTimes_error {w : Nat} {readOnly : Bool} {info : EfiFileInfo} {mtime : Nat}
    (h : newTimes w readOnly info mtime = .error status) : status ≠ .success := by
  unfold newTimes at h
  cases hcreate : newModtime w readOnly info.createTime (mtime, false) with
  | error status' =>
    rw [hcreate] at h
    cases h
    exact newModtime_failed hcreate
  | ok modtime =>
    rw [hcreate] at h
    exact newModtime_failed h

theorem lklSetFileInfo_resizes (hk : k.Sound) (ho : k.fd f.fd = some o) (w bufferSize : Nat)
    (volume : LklVolume) (info : EfiFileInfo) :
    Linux.faulty.Always (lklSetFileInfo w volume f bufferSize info) (Resizes k f o info) k := by
  have hself := Linux.serving_of_core hk ho (rfl : k.core = k.core)
  unfold lklSetFileInfo
  split
  · exact .inl ⟨by decide, hself⟩
  split
  · exact .inl ⟨by decide, hself⟩
  have hfstat : k.fstat f.fd = (0, (k.inode o.ino).stat) := by simp [Linux.fstat, ho]
  refine Linux.always_fstat ?_ fun x hneg => ?_
  swap
  · obtain ⟨rc, st⟩ := x
    have hrc : rc ≠ 0 := by
      dsimp only at hneg
      omega
    dsimp only
    rw [if_pos hrc]
    exact .inl ⟨fun h => hrc (lklError2EfiError_eq_success.mp h), hself.of_core rfl⟩
  have hzero : ¬(0 : Int) ≠ 0 := by decide
  rw [hfstat]
  dsimp only
  rw [if_neg hzero]
  have hpos := (Linux.fds_of_fd ho).1
  split
  · next status hstatus => exact .inl ⟨newTimes_error hstatus, hself⟩
  · next modtime timeChanged htimes =>
    have hrest : ∀ (rc : Int) (k₁ : Linux), k.Serving k₁ f.fd o o.pos (k.inode o.ino).bytes →
        Linux.faulty.Always (if rc ≠ 0 then pure (lklError2EfiError rc)
          else applyAttributes f (k.inode o.ino).stat (f.linuxOpenFlags &&& O_RDONLY).toUInt8
            (if isDirMode (k.inode o.ino).stat.mode = true then 1 else 0) info)
          (Resizes k f o info) k₁ := by
      intro rc k₁ h₁
      split
      · next hrc => exact .inl ⟨fun h => hrc (lklError2EfiError_eq_success.mp h), h₁⟩
      · exact applyAttributes_resizes h₁ rfl hpos
    split
    · exact Env.always_bind.mpr ((applyTime_serving hself volume _ _).mono hrest)
    · exact hrest 0 k hself

theorem setInfo_served (hk : k.Sound) (ho : k.fd f.fd = some o)
    (hkind : isDirMode f.statBuf.mode = (k.inode o.ino).isDir) (type : EfiGuid)
    (bufferSize : Nat) (info : EfiFileInfo) :
    Linux.faulty.Always (Request.reply w f (.setInfo type bufferSize info))
      (fun x k' => Handled short k f o (.setInfo type bufferSize info) x k') k := by
  have hidle : ∀ status : EfiStatus, status ≠ .success →
      Handled short k f o (.setInfo type bufferSize info)
        (⟨status, 0, .none, none⟩, .kept f) k := by
    intro status hstatus
    refine .idle (Linux.serving_of_core hk ho rfl) rfl rfl ?_
    unfold Linux.access OpenFile.access
    cases type <;> simp [ho, hstatus]
  refine Env.always_bind.mpr (Env.always_bind.mpr ?_)
  unfold lklSetInfo
  cases type with
  | fileInfo =>
    dsimp only
    split
    · exact hidle .writeProtected (by decide)
    refine (lklSetFileInfo_resizes hk ho w bufferSize f.volume info).mono ?_
    rintro status k' (⟨hstatus, hs⟩ | ⟨rfl, hs, hwritable⟩)
    · refine ⟨⟨f, rfl, rfl, rfl⟩, _, _, hs, .inl ⟨?_, rfl, rfl⟩⟩
      unfold Linux.access OpenFile.access
      simp [ho, hstatus]
    · refine ⟨⟨f, rfl, rfl, rfl⟩, _, _, hs, ?_⟩
      cases hregular : f.regular with
      | false =>
        have hdir : (k.inode o.ino).isDir = true := by
          simpa [LklIfile.regular, hkind] using hregular
        rcases hwritable with ⟨hfile, -⟩ | hsize
        · rw [hdir] at hfile
          cases hfile
        · refine .inl ⟨Linux.access_directory hregular _, rfl, ?_⟩
          rw [hsize, ← Inode.length_bytes, resize_length]
      | true =>
        rw [Linux.access_regular ho hregular]
        refine .inr ⟨.resized f.fd o.ino info.fileSize, by simp [OpenFile.access],
          fun S hcursor hbytes => ⟨⟨_, _, hcursor, ?_⟩, ?_⟩⟩
        · rw [hbytes, Inode.length_bytes]
          exact hwritable.imp (fun h => decide_eq_true h.2) id
        · rw [← hbytes]
          refine (Store.move_self fun _ ho => ?_).symm
          rw [← Option.some.inj (hcursor.symm.trans ho)]
          rfl
  | _ => exact hidle .unsupported (by decide)

def Call.looks : Call → Bool
  | .sysFstat _ | .sysStatfs _ | .sysFsync _ => true
  | _ => false

theorem Linux.always_looks {α : Type} {p : Lkl α} (hp : p.Only fun c => c.looks = true) :
    (Linux.answering short).Always p (fun _ k' => k'.core = k.core) k := by
  refine Env.always_of_invariant (I := fun k' : Linux => k'.core = k.core) ?_ hp rfl
  rintro g c x g' hc hg (hx | ⟨-, rfl⟩)
  · cases c with
    | sysFstat | sysFsync =>
      obtain ⟨-, rfl⟩ := Prod.mk.inj hx
      exact hg
    | sysStatfs =>
      obtain rfl : g' = g := hx
      exact hg
    | _ => cases hc
  · exact hg

theorem lklGetInfo_looks (w : Nat) (f : LklIfile) (type : EfiGuid) (bufferSize : Nat) :
    (lklGetInfo w f type bufferSize).Only fun c => c.looks = true := by
  cases type with
  | fileInfo =>
    unfold lklGetInfo lklGetFileInfo
    dsimp only
    split
    · trivial
    · refine Prog.Only.bind (Prog.only_ask_bind.mpr ⟨rfl, fun x => ?_⟩) fun _ => trivial
      dsimp only
      split <;> trivial
  | fileSystemInfo =>
    refine Prog.only_ask_bind.mpr ⟨rfl, fun x => ?_⟩
    dsimp only
    split
    · trivial
    · split <;> trivial
  | other => trivial

theorem still_served (hk : k.Sound) (ho : k.fd f.fd = some o) {p : Lkl EfiStatus}
    (hp : p.Only fun c => c.looks = true) (haccess : ∀ x, k.access short f r x = []) :
    (Linux.answering short).Always (do
      let (status, change) ← (do let status ← p; pure (status, HandleChange.kept f))
      pure ((⟨status, 0, .none, none⟩ : Reply), change))
      (fun x k' => Handled short k f o r x k') k := by
  refine Env.always_bind.mpr (Env.always_bind.mpr ((Linux.always_looks hp).mono ?_))
  exact fun status k' hcore => .idle (Linux.serving_of_core hk ho hcore) rfl rfl (haccess _)

def Request.keepsHandles : Request → Bool
  | .open _ _ _ | .close | .delete => false
  | _ => true

theorem Linux.access_eq_nil (ho : k.fd f.fd = some o) {x : Reply}
    (hx : ∀ size, o.access short size f.fd r x = []) : k.access short f r x = [] := by
  unfold Linux.access
  rw [ho]
  dsimp only
  split
  · exact hx _
  · rfl

/-- Every request but an open, a close or a deletion is served so. -/
theorem request_served (hk : k.Sound) (ho : k.fd f.fd = some o) (hlt : f.fd.toNat < k.nextFd)
    (hkind : isDirMode f.statBuf.mode = (k.inode o.ino).isDir) (hr : r.keepsHandles = true) :
    (Linux.answering short).Always (r.reply w f) (fun x k' => Handled short k f o r x k') k := by
  cases r with
  | «open» fileName openMode attributes => cases hr
  | close => cases hr
  | delete => cases hr
  | read bufferSize => exact read_served hk ho hlt hkind bufferSize
  | write buffer => exact write_served hk ho buffer
  | getPosition =>
    exact Linux.always_answering (getPosition_served hk ho)
      (reply_firm w f (by simp) (by simp) (by simp))
  | setPosition position =>
    exact Linux.always_answering (setPosition_served hk ho position)
      (reply_firm w f (by simp) (by simp) (by simp))
  | setInfo type bufferSize info =>
    exact Linux.always_answering (setInfo_served hk ho hkind type bufferSize info)
      (reply_firm w f (by simp) (by simp) (by simp))
  | getInfo type bufferSize =>
    refine Env.always_bind.mpr (Env.always_bind.mpr ((Linux.always_looks
      (lklGetInfo_looks w f type bufferSize)).mono fun x k' hcore => ?_))
    exact .idle (Linux.serving_of_core hk ho hcore) rfl rfl (Linux.access_eq_nil ho fun _ => rfl)
  | flush =>
    exact still_served hk ho (p := lklFlush f) (Prog.only_ask_bind.mpr ⟨rfl, fun _ => trivial⟩)
      fun _ => Linux.access_eq_nil ho fun _ => rfl
  | _ =>
    exact still_served hk ho (p := .ret _) trivial fun _ => Linux.access_eq_nil ho fun _ => rfl

end Requests

end UefiLkl
