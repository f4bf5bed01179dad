import UnifiedCache.Cache.Store

/-! What each step of the cache store does, one case for each branch of the step
function. -/

namespace UnifiedCache.CacheStore

namespace Store

variable {Data : Type}

inductive LoadStep (config : Config Data) (s : Store Data) : Store Data → Prop
  | pop {task tasks} (hl : s.loader = .idle) (hw : s.loadWaiting = task :: tasks) :
      LoadStep config s { s with loader := .check task, loadWaiting := tasks }
  | refuse {task} (hl : s.loader = .check task) (hf : task.id ∈ s.failureSet) :
      LoadStep config s { s.latchDone task.id with loader := .idle }
  | check {task} (hl : s.loader = .check task) (hf : task.id ∉ s.failureSet) :
      LoadStep config s { s with loader := .find task.id [] task.desc }
  | gathered {id got} (hl : s.loader = .find id got []) :
      LoadStep config s { s with loader := .submit id got }
  | miss {id got shard rest} (hl : s.loader = .find id got (shard :: rest))
      (hb : bucketFree config s.dumper.allocKey shard.key = true) (hp : s.pool.find shard.key = none) :
      LoadStep config s { s with loader := .alloc id got shard rest }
  | hit {id got shard rest i} (hl : s.loader = .find id got (shard :: rest))
      (hb : bucketFree config s.dumper.allocKey shard.key = true) (hp : s.pool.find shard.key = some i) :
      LoadStep config s { s with
        pool := s.pool.pin i
        loader := .find id (got ++ [⟨shard, s.hit shard.key i,
          (s.hit shard.key i).owner && !s.pool.ready i⟩]) rest }
  | skipNode {id got shard rest} (hl : s.loader = .alloc id got shard rest)
      (hp : s.passes config shard.key = true) :
      LoadStep config s { s with pool := s.pool.advance }
  | takeNode {id got shard rest} (hl : s.loader = .alloc id got shard rest)
      (hr : s.pool.reference s.pool.hand = 0) :
      LoadStep config s { s with
        pool := s.pool.advance.rekey s.pool.hand shard.key
        loader := .find id (got ++ [⟨shard, ⟨s.pool.hand, shard.key, true⟩, true⟩]) rest }
  | allReady {id got} (hl : s.loader = .submit id got) (hi : loadItems got = []) :
      LoadStep config s { s with loader := .push (shardTasks id 0 got) }
  | refused {id got} (hl : s.loader = .submit id got) (hi : loadItems got ≠ []) :
      LoadStep config s { s with loader := .fail id got }
  | submit {id got h} (hl : s.loader = .submit id got) (hi : loadItems got ≠ []) (hh : s.lastJob < h) :
      LoadStep config s { s with
        loader := .push (shardTasks id h got)
        loadJobs := ⟨h, loadItems got⟩ :: s.loadJobs
        lastJob := h }
  | pushed (hl : s.loader = .push []) : LoadStep config s { s with loader := .idle }
  | push {task tasks} (hl : s.loader = .push (task :: tasks))
      (hr : s.running.length + 1 < config.runningQueueDepth) :
      LoadStep config s { s with loader := .push tasks, running := s.running ++ [task] }
  | fail {id got} (hl : s.loader = .fail id got) :
      LoadStep config s { s.markFailed id with loader := .done id got }
  | done {id got} (hl : s.loader = .done id got) :
      LoadStep config s { s.latchDone id with loader := .release got }
  | released (hl : s.loader = .release []) : LoadStep config s { s with loader := .idle }
  | release {g got} (hl : s.loader = .release (g :: got)) :
      LoadStep config s { s.release g.bufferHandle with loader := .release got }

inductive TransferStep (s : Store Data) : Store Data → Prop
  | pop {task running} (ht : s.transfer = .idle) (hr : s.running = task :: running) :
      TransferStep s { s with transfer := .check task, running := running }
  | refuse {task} (ht : s.transfer = .check task) (hf : task.taskHandle ∈ s.failureSet) :
      TransferStep s { s with transfer := .done task }
  | check {task} (ht : s.transfer = .check task) (hf : task.taskHandle ∉ s.failureSet) :
      TransferStep s { s with transfer := .ready task }
  | isReady {task} (ht : s.transfer = .ready task)
      (hd : s.pool.ready task.bufferHandle.node = true) : TransferStep s { s with transfer := .copy task }
  | notOwner {task} (ht : s.transfer = .ready task)
      (hd : s.pool.ready task.bufferHandle.node = false) (ho : task.bufferHandle.owner = false) :
      TransferStep s { s with transfer := .spin task }
  | unfinished {task} (ht : s.transfer = .ready task)
      (hd : s.pool.ready task.bufferHandle.node = false) (ho : task.bufferHandle.owner = true)
      (hh : s.finishedLoad < task.backendTaskHandle) : TransferStep s { s with transfer := .backendWait task }
  | finished {task} (ht : s.transfer = .ready task)
      (hd : s.pool.ready task.bufferHandle.node = false) (ho : task.bufferHandle.owner = true)
      (hh : task.backendTaskHandle ≤ s.finishedLoad) : TransferStep s { s with transfer := .mark task }
  | spinFailed {task} (ht : s.transfer = .spin task) (hf : task.taskHandle ∈ s.failureSet) :
      TransferStep s { s with transfer := .fail task }
  | spinReady {task} (ht : s.transfer = .spin task) (hd : s.pool.ready task.bufferHandle.node = true) :
      TransferStep s { s with transfer := .copy task }
  | waited {task} (ht : s.transfer = .backendWait task)
      (hr : s.results task.backendTaskHandle = some true) :
      TransferStep s { s with finishedLoad := task.backendTaskHandle, transfer := .mark task }
  | waitFailed {task} (ht : s.transfer = .backendWait task)
      (hr : s.results task.backendTaskHandle = some false) :
      TransferStep s { s with finishedLoad := task.backendTaskHandle, transfer := .fail task }
  | mark {task} (ht : s.transfer = .mark task) : TransferStep s { s with
      pool := s.pool.markReady task.bufferHandle.node
      transfer := .copy task }
  | copyFailed {task} (ht : s.transfer = .copy task) : TransferStep s { s with transfer := .fail task }
  | copyLast {task} (ht : s.transfer = .copy task) (hw : task.waiter = true) : TransferStep s { s with
      h2d := ⟨task.taskHandle, task.bufferHandle.key, task.bufferHandle.node, task.shard.addrs⟩ :: s.h2d
      transfer := .sync task }
  | copy {task} (ht : s.transfer = .copy task) (hw : task.waiter = false) : TransferStep s { s with
      h2d := ⟨task.taskHandle, task.bufferHandle.key, task.bufferHandle.node, task.shard.addrs⟩ :: s.h2d
      transfer := .idle
      holder := s.holder ++ [task] }
  | syncFailed {task} (ht : s.transfer = .sync task) :
      TransferStep s { s with h2d := [], transfer := .clear task false }
  | sync {task} (ht : s.transfer = .sync task) (hh : s.h2d = []) :
      TransferStep s { s with transfer := .clear task true }
  | clear {task success held holder} (ht : s.transfer = .clear task success)
      (hh : s.holder = held :: holder) : TransferStep s { s.release held.bufferHandle with holder := holder }
  | cleared {task} (ht : s.transfer = .clear task true) (hh : s.holder = []) :
      TransferStep s { s with transfer := .done task }
  | clearedFailed {task} (ht : s.transfer = .clear task false) (hh : s.holder = []) :
      TransferStep s { s with transfer := .fail task }
  | fail {task} (ht : s.transfer = .fail task) :
      TransferStep s { s.markFailed task.taskHandle with transfer := .done task }
  | doneLast {task} (ht : s.transfer = .done task) (hw : task.waiter = true) :
      TransferStep s { s.latchDone task.taskHandle with transfer := .release task }
  | done {task} (ht : s.transfer = .done task) (hw : task.waiter = false) :
      TransferStep s { s with transfer := .release task }
  | release {task} (ht : s.transfer = .release task) :
      TransferStep s { s.release task.bufferHandle with transfer := .idle }

inductive DumpStep (config : Config Data) (s : Store Data) : Store Data → Prop
  | pop {task tasks} (hd : s.dumper = .idle) (hw : s.dumpWaiting = task :: tasks) :
      DumpStep config s { s with dumper := .check task, dumpWaiting := tasks }
  | refuse {task} (hd : s.dumper = .check task) (hf : task.id ∈ s.failureSet) :
      DumpStep config s { s with dumper := .done task }
  | check {task} (hd : s.dumper = .check task) (hf : task.id ∉ s.failureSet) :
      DumpStep config s { s with dumper := .find task [] task.desc }
  | nothing {task} (hd : s.dumper = .find task [] []) : DumpStep config s { s with dumper := .done task }
  | gathered {task ctx} (hd : s.dumper = .find task ctx []) (hc : ctx ≠ []) :
      DumpStep config s { s with dumper := .sync task ctx }
  | miss {task ctx shard rest} (hd : s.dumper = .find task ctx (shard :: rest))
      (hb : bucketFree config s.loader.allocKey shard.key = true) (hp : s.pool.find shard.key = none) :
      DumpStep config s { s with dumper := .alloc task ctx shard rest }
  | hit {task ctx shard rest i} (hd : s.dumper = .find task ctx (shard :: rest))
      (hb : bucketFree config s.loader.allocKey shard.key = true) (hp : s.pool.find shard.key = some i) :
      DumpStep config s { s with
        pool := s.pool.pin i
        dumper := .got task ctx shard (s.hit shard.key i) rest }
  | skipNode {task ctx shard rest} (hd : s.dumper = .alloc task ctx shard rest)
      (hp : s.passes config shard.key = true) :
      DumpStep config s { s with pool := s.pool.advance }
  | takeNode {task ctx shard rest} (hd : s.dumper = .alloc task ctx shard rest)
      (hr : s.pool.reference s.pool.hand = 0) :
      DumpStep config s { s with
        pool := s.pool.advance.rekey s.pool.hand shard.key
        dumper := .got task ctx shard ⟨s.pool.hand, shard.key, true⟩ rest }
  | skip {task ctx shard handle rest} (hd : s.dumper = .got task ctx shard handle rest)
      (ho : handle.owner = false) :
      DumpStep config s { s.release handle with dumper := .find task ctx rest }
  | keep {task ctx shard handle rest} (hd : s.dumper = .got task ctx shard handle rest)
      (ho : handle.owner = true) (hr : s.pool.ready handle.node = true) :
      DumpStep config s { s with dumper := .find task (ctx ++ [(shard, handle)]) rest }
  | copy {task ctx shard handle rest} (hd : s.dumper = .got task ctx shard handle rest)
      (ho : handle.owner = true) (hr : s.pool.ready handle.node = false) :
      DumpStep config s { s with
        d2h := ⟨task.id, handle.key, handle.node, shard.addrs⟩ :: s.d2h
        dumper := .find task (ctx ++ [(shard, handle)]) rest }
  | copyFailed {task ctx shard handle rest} (hd : s.dumper = .got task ctx shard handle rest)
      (ho : handle.owner = true) (hr : s.pool.ready handle.node = false) :
      DumpStep config s { s with dumper := .drop task (handle :: ctx.map Prod.snd) }
  | syncFailed {task ctx} (hd : s.dumper = .sync task ctx) :
      DumpStep config s { s with d2h := [], dumper := .drop task (ctx.map Prod.snd) }
  | sync {task ctx} (hd : s.dumper = .sync task ctx) (hh : s.d2h = []) :
      DumpStep config s { s with dumper := .mark task ctx ctx }
  | mark {task ctx x todo} (hd : s.dumper = .mark task ctx (x :: todo)) :
      DumpStep config s { s with pool := s.pool.markReady x.2.node, dumper := .mark task ctx todo }
  | refused {task ctx} (hd : s.dumper = .mark task ctx []) :
      DumpStep config s { s with dumper := .drop task (ctx.map Prod.snd) }
  | submit {task ctx h} (hd : s.dumper = .mark task ctx []) (hh : s.lastJob < h) :
      DumpStep config s { s with
        dumper := .push task h ctx
        dumpJobs := ⟨h, ctx.map fun x => x.2.key⟩ :: s.dumpJobs
        lastJob := h
        handed := ctx.map (fun x => (x.2.key, s.data x.2.node)) ++ s.handed }
  | push {task h ctx} (hd : s.dumper = .push task h ctx)
      (hr : s.dumping.length + 1 < config.runningQueueDepth) :
      DumpStep config s { s with dumper := .done task, dumping := s.dumping ++ [⟨h, ctx.map Prod.snd⟩] }
  | drop {task handle handles} (hd : s.dumper = .drop task (handle :: handles)) :
      DumpStep config s { s.release handle with dumper := .drop task handles }
  | dropped {task} (hd : s.dumper = .drop task []) : DumpStep config s { s with dumper := .fail task }
  | fail {task} (hd : s.dumper = .fail task) :
      DumpStep config s { s.markFailed task.id with dumper := .done task }
  | done {task} (hd : s.dumper = .done task) :
      DumpStep config s { s.latchDone task.id with dumper := .idle }

inductive BackendDumpStep (s : Store Data) : Store Data → Prop
  | pop {ctx dumping} (hb : s.backendDumper = .idle) (hd : s.dumping = ctx :: dumping) :
      BackendDumpStep s { s with backendDumper := .check ctx, dumping := dumping }
  | unfinished {ctx} (hb : s.backendDumper = .check ctx) (hh : s.finishedDump < ctx.backendTaskHandle) :
      BackendDumpStep s { s with backendDumper := .wait ctx }
  | finished {ctx} (hb : s.backendDumper = .check ctx) (hh : ctx.backendTaskHandle ≤ s.finishedDump) :
      BackendDumpStep s { s with backendDumper := .release ctx.bufferHandles }
  | waited {ctx} (hb : s.backendDumper = .wait ctx) (hr : s.results ctx.backendTaskHandle ≠ none) :
      BackendDumpStep s { s with
        finishedDump := ctx.backendTaskHandle
        backendDumper := .release ctx.bufferHandles }
  | released (hb : s.backendDumper = .release []) : BackendDumpStep s { s with backendDumper := .idle }
  | release {handle handles} (hb : s.backendDumper = .release (handle :: handles)) :
      BackendDumpStep s { s.release handle with backendDumper := .release handles }

inductive BackendStep (config : Config Data) (s : Store Data) : Store Data → Prop
  | loadWrite {job node bytes} (hj : job ∈ s.loadJobs) (hn : node ∈ job.items.map Prod.snd) :
      BackendStep config s { s with data := Function.update s.data node bytes }
  | loadDone {job} (content : (BlockId × Nat) → Data) (hj : job ∈ s.loadJobs) :
      BackendStep config s { s.fill job.items content with
        loadJobs := s.loadJobs.erase job
        results := Function.update s.results job.handle (some true) }
  | loadFailed {job} (hj : job ∈ s.loadJobs) : BackendStep config s { s with
      loadJobs := s.loadJobs.erase job
      results := Function.update s.results job.handle (some false) }
  | dumpDone {job success} (hj : job ∈ s.dumpJobs) : BackendStep config s { s with
      dumpJobs := s.dumpJobs.erase job
      results := Function.update s.results job.handle (some success)
      stored := if success then job.keys ++ s.stored else s.stored }
  | archive {k} : BackendStep config s { s with stored := k :: s.stored }
  | d2h {i c} (hc : s.d2h[i]? = some c) :
      BackendStep config s { s.fill [(c.key, c.node)] (fun _ => config.device c.addrs) with
        d2h := s.d2h.eraseIdx i }
  | h2d {i} (hi : i < s.h2d.length) : BackendStep config s { s with h2d := s.h2d.eraseIdx i }

/-- A task that `Submit` has entered into the table. -/
def enter (s : Store Data) (task : TransTask) : Store Data :=
  { s with
    nextId := s.nextId + 1
    tasks := task :: s.tasks
    waits := Function.update s.waits task.id .submitted
    latches := Function.update s.latches task.id (s.latches task.id + 1) }

inductive UserStep (s : Store Data) : Store Data → Prop
  | full {type desc} : UserStep s
      (((s.enter ⟨s.nextId, type, desc⟩).markFailed s.nextId).latchDone s.nextId)
  | load {desc} : UserStep s { s.enter ⟨s.nextId, .load, desc⟩ with
      loadWaiting := s.loadWaiting ++ [⟨s.nextId, .load, desc⟩] }
  | dump {desc} : UserStep s { s.enter ⟨s.nextId, .dump, desc⟩ with
      dumpWaiting := s.dumpWaiting ++ [⟨s.nextId, .dump, desc⟩] }
  | wait {id} (hw : s.waits id = .submitted) :
      UserStep s { s with waits := Function.update s.waits id .waiting }
  | timeout {id} (hw : s.waits id = .waiting) :
      UserStep s { s.markFailed id with waits := Function.update s.waits id .timedOut }
  | error {id} (hl : s.latches id = 0) (hw : s.waits id = .waiting) (hf : id ∈ s.failureSet) :
      UserStep s { s with
        failureSet := s.failureSet.erase id
        waits := Function.update s.waits id .error }
  | ok {id} (hl : s.latches id = 0) (hw : s.waits id = .waiting) (hf : id ∉ s.failureSet) :
      UserStep s { s with waits := Function.update s.waits id .ok }
  | timedOut {id} (hl : s.latches id = 0) (hw : s.waits id = .timedOut) :
      UserStep s { s with
        failureSet := s.failureSet.erase id
        waits := Function.update s.waits id .timeout }

variable {config : Config Data} {s s' : Store Data}

theorem loadStep_inv {e : LoadEvent} (h : s.loadStep config e = some s') : LoadStep config s s' := by
  cases e with
  | pop =>
    simp only [loadStep] at h
    split at h
    · obtain rfl := Option.some.inj h
      exact .pop ‹_› ‹_›
    · cases h
  | check =>
    simp only [loadStep] at h
    split at h
    · split_ifs at h with hf
      · obtain rfl := Option.some.inj h
        exact .refuse ‹_› hf
      · obtain rfl := Option.some.inj h
        exact .check ‹_› hf
    · cases h
  | find =>
    simp only [loadStep] at h
    split at h
    · obtain rfl := Option.some.inj h
      exact .gathered ‹_›
    · split_ifs at h with hb
      split at h
      · obtain rfl := Option.some.inj h
        exact .miss ‹_› hb ‹_›
      · obtain rfl := Option.some.inj h
        exact .hit ‹_› hb ‹_›
    · cases h
  | skipNode =>
    simp only [loadStep] at h
    split at h
    · split_ifs at h with hp
      obtain rfl := Option.some.inj h
      exact .skipNode ‹_› hp
    · cases h
  | takeNode =>
    simp only [loadStep] at h
    split at h
    · split_ifs at h with hr
      obtain rfl := Option.some.inj h
      exact .takeNode ‹_› hr
    · cases h
  | submit handle =>
    simp only [loadStep] at h
    split at h
    · split_ifs at h with hi
      · obtain rfl := Option.some.inj h
        exact .allReady ‹_› hi
      · split at h
        · obtain rfl := Option.some.inj h
          exact .refused ‹_› hi
        · split_ifs at h with hh
          obtain rfl := Option.some.inj h
          exact .submit ‹_› hi hh
    · cases h
  | push =>
    simp only [loadStep] at h
    split at h
    · obtain rfl := Option.some.inj h
      exact .pushed ‹_›
    · split_ifs at h with hr
      obtain rfl := Option.some.inj h
      exact .push ‹_› hr
    · cases h
  | fail =>
    simp only [loadStep] at h
    split at h
    · obtain rfl := Option.some.inj h
      exact .fail ‹_›
    · cases h
  | done =>
    simp only [loadStep] at h
    split at h
    · obtain rfl := Option.some.inj h
      exact .done ‹_›
    · cases h
  | release =>
    simp only [loadStep] at h
    split at h
    · obtain rfl := Option.some.inj h
      exact .released ‹_›
    · obtain rfl := Option.some.inj h
      exact .release ‹_›
    · cases h

theorem transferStep_inv {e : TransferEvent} (h : s.transferStep e = some s') : TransferStep s s' := by
  cases e with
  | pop =>
    simp only [transferStep] at h
    split at h
    · obtain rfl := Option.some.inj h
      exact .pop ‹_› ‹_›
    · cases h
  | check =>
    simp only [transferStep] at h
    split at h
    · obtain rfl := Option.some.inj h
      split_ifs with hf
      · exact .refuse ‹_› hf
      · exact .check ‹_› hf
    · cases h
  | ready =>
    simp only [transferStep] at h
    split at h
    · obtain rfl := Option.some.inj h
      split_ifs with hd ho hh
      · exact .isReady ‹_› hd
      · exact .notOwner ‹_› (by simpa using hd) (by simpa using ho)
      · exact .unfinished ‹_› (by simpa using hd) (by simpa using ho) hh
      · exact .finished ‹_› (by simpa using hd) (by simpa using ho) (Nat.le_of_not_lt hh)
    · cases h
  | spinFailed =>
    simp only [transferStep] at h
    split at h
    · split_ifs at h with hf
      obtain rfl := Option.some.inj h
      exact .spinFailed ‹_› hf
    · cases h
  | spinReady =>
    simp only [transferStep] at h
    split at h
    · split_ifs at h with hd
      obtain rfl := Option.some.inj h
      exact .spinReady ‹_› hd
    · cases h
  | waited =>
    simp only [transferStep] at h
    split at h
    · split at h
      · cases h
      · rename_i success hr
        obtain rfl := Option.some.inj h
        cases success with
        | true => exact .waited ‹_› hr
        | false => exact .waitFailed ‹_› hr
    · cases h
  | mark =>
    simp only [transferStep] at h
    split at h
    · obtain rfl := Option.some.inj h
      exact .mark ‹_›
    · cases h
  | copy success =>
    simp only [transferStep] at h
    split at h
    · split_ifs at h with hs hw
      · obtain rfl := Option.some.inj h
        exact .copyFailed ‹_›
      · obtain rfl := Option.some.inj h
        exact .copyLast ‹_› hw
      · obtain rfl := Option.some.inj h
        exact .copy ‹_› (by simpa using hw)
    · cases h
  | sync success =>
    simp only [transferStep] at h
    split at h
    · split_ifs at h with hs hh
      · obtain rfl := Option.some.inj h
        exact .syncFailed ‹_›
      · obtain rfl := Option.some.inj h
        exact .sync ‹_› hh
    · cases h
  | clear =>
    simp only [transferStep] at h
    split at h
    · obtain rfl := Option.some.inj h
      exact .clear ‹_› ‹_›
    · rename_i task success _ _
      obtain rfl := Option.some.inj h
      cases success with
      | true => exact .cleared ‹_› ‹_›
      | false => exact .clearedFailed ‹_› ‹_›
    · cases h
  | fail =>
    simp only [transferStep] at h
    split at h
    · obtain rfl := Option.some.inj h
      exact .fail ‹_›
    · cases h
  | done =>
    simp only [transferStep] at h
    split at h
    · split_ifs at h with hw
      · obtain rfl := Option.some.inj h
        exact .doneLast ‹_› hw
      · obtain rfl := Option.some.inj h
        exact .done ‹_› (by simpa using hw)
    · cases h
  | release =>
    simp only [transferStep] at h
    split at h
    · obtain rfl := Option.some.inj h
      exact .release ‹_›
    · cases h

theorem dumpStep_inv {e : DumpEvent} (h : s.dumpStep config e = some s') : DumpStep config s s' := by
  cases e with
  | pop =>
    simp only [dumpStep] at h
    split at h
    · obtain rfl := Option.some.inj h
      exact .pop ‹_› ‹_›
    · cases h
  | check =>
    simp only [dumpStep] at h
    split at h
    · obtain rfl := Option.some.inj h
      split_ifs with hf
      · exact .refuse ‹_› hf
      · exact .check ‹_› hf
    · cases h
  | find =>
    simp only [dumpStep] at h
    split at h
    · obtain rfl := Option.some.inj h
      exact .nothing ‹_›
    · rename_i hno hd
      obtain rfl := Option.some.inj h
      exact .gathered hd hno
    · split_ifs at h with hb
      split at h
      · obtain rfl := Option.some.inj h
        exact .miss ‹_› hb ‹_›
      · obtain rfl := Option.some.inj h
        exact .hit ‹_› hb ‹_›
    · cases h
  | skipNode =>
    simp only [dumpStep] at h
    split at h
    · split_ifs at h with hp
      obtain rfl := Option.some.inj h
      exact .skipNode ‹_› hp
    · cases h
  | takeNode =>
    simp only [dumpStep] at h
    split at h
    · split_ifs at h with hr
      obtain rfl := Option.some.inj h
      exact .takeNode ‹_› hr
    · cases h
  | skip =>
    simp only [dumpStep] at h
    split at h
    · split_ifs at h with ho
      obtain rfl := Option.some.inj h
      exact .skip ‹_› (by simpa using ho)
    · cases h
  | keep =>
    simp only [dumpStep] at h
    split at h
    · split_ifs at h with hk
      obtain rfl := Option.some.inj h
      rw [Bool.and_eq_true] at hk
      exact .keep ‹_› hk.1 hk.2
    · cases h
  | copy success =>
    simp only [dumpStep] at h
    split at h
    · split_ifs at h with hk hs
      · obtain rfl := Option.some.inj h
        rw [Bool.and_eq_true, Bool.not_eq_true'] at hk
        exact .copy ‹_› hk.1 hk.2
      · obtain rfl := Option.some.inj h
        rw [Bool.and_eq_true, Bool.not_eq_true'] at hk
        exact .copyFailed ‹_› hk.1 hk.2
    · cases h
  | sync success =>
    simp only [dumpStep] at h
    split at h
    · split_ifs at h with hs hh
      · obtain rfl := Option.some.inj h
        exact .syncFailed ‹_›
      · obtain rfl := Option.some.inj h
        exact .sync ‹_› hh
    · cases h
  | mark =>
    simp only [dumpStep] at h
    split at h
    · obtain rfl := Option.some.inj h
      exact .mark ‹_›
    · cases h
  | submit handle =>
    simp only [dumpStep] at h
    split at h
    · split at h
      · obtain rfl := Option.some.inj h
        exact .refused ‹_›
      · split_ifs at h with hh
        obtain rfl := Option.some.inj h
        exact .submit ‹_› hh
    · cases h
  | push =>
    simp only [dumpStep] at h
    split at h
    · split_ifs at h with hr
      obtain rfl := Option.some.inj h
      exact .push ‹_› hr
    · cases h
  | drop =>
    simp only [dumpStep] at h
    split at h
    · obtain rfl := Option.some.inj h
      exact .drop ‹_›
    · obtain rfl := Option.some.inj h
      exact .dropped ‹_›
    · cases h
  | fail =>
    simp only [dumpStep] at h
    split at h
    · obtain rfl := Option.some.inj h
      exact .fail ‹_›
    · cases h
  | done =>
    simp only [dumpStep] at h
    split at h
    · obtain rfl := Option.some.inj h
      exact .done ‹_›
    · cases h

theorem backendDumpStep_inv {e : BackendDumpEvent} (h : s.backendDumpStep e = some s') :
    BackendDumpStep s s' := by
  cases e with
  | pop =>
    simp only [backendDumpStep] at h
    split at h
    · obtain rfl := Option.some.inj h
      exact .pop ‹_› ‹_›
    · cases h
  | check =>
    simp only [backendDumpStep] at h
    split at h
    · obtain rfl := Option.some.inj h
      split_ifs with hh
      · exact .unfinished ‹_› hh
      · exact .finished ‹_› (Nat.le_of_not_lt hh)
    · cases h
  | waited =>
    simp only [backendDumpStep] at h
    split at h
    · split_ifs at h with hr
      obtain rfl := Option.some.inj h
      exact .waited ‹_› hr
    · cases h
  | release =>
    simp only [backendDumpStep] at h
    split at h
    · obtain rfl := Option.some.inj h
      exact .released ‹_›
    · obtain rfl := Option.some.inj h
      exact .release ‹_›
    · cases h

theorem backendStep_inv {e : BackendEvent Data} (h : s.backendStep config e = some s') :
    BackendStep config s s' := by
  cases e with
  | loadWrite handle node bytes =>
    simp only [backendStep] at h
    split_ifs at h with hj
    obtain ⟨job, hj, _, hn⟩ := hj
    obtain rfl := Option.some.inj h
    exact .loadWrite hj hn
  | loadDone handle content =>
    simp only [backendStep] at h
    split at h
    · cases h
    · rename_i job hj
      obtain rfl := Option.some.inj h
      obtain rfl : job.handle = handle := by simpa using List.find?_some hj
      exact .loadDone content (List.mem_of_find?_eq_some hj)
  | loadFailed handle =>
    simp only [backendStep] at h
    split at h
    · cases h
    · rename_i job hj
      obtain rfl := Option.some.inj h
      obtain rfl : job.handle = handle := by simpa using List.find?_some hj
      exact .loadFailed (List.mem_of_find?_eq_some hj)
  | dumpDone handle success =>
    simp only [backendStep] at h
    split at h
    · cases h
    · rename_i job hj
      obtain rfl := Option.some.inj h
      obtain rfl : job.handle = handle := by simpa using List.find?_some hj
      exact .dumpDone (List.mem_of_find?_eq_some hj)
  | archive k =>
    obtain rfl := Option.some.inj h
    exact .archive
  | d2h i =>
    simp only [backendStep] at h
    split at h
    · cases h
    · rename_i c hc
      obtain rfl := Option.some.inj h
      exact .d2h hc
  | h2d i =>
    simp only [backendStep] at h
    split_ifs at h with hi
    obtain rfl := Option.some.inj h
    exact .h2d hi

theorem userStep_inv {e : UserEvent} (h : s.userStep config e = some s') : UserStep s s' := by
  cases e with
  | submit type desc =>
    simp only [userStep] at h
    split_ifs at h with hf
    · obtain rfl := Option.some.inj h
      exact .full
    · cases type with
      | load =>
        obtain rfl := Option.some.inj h
        exact .load
      | dump =>
        obtain rfl := Option.some.inj h
        exact .dump
  | wait id =>
    simp only [userStep] at h
    split_ifs at h with hw
    obtain rfl := Option.some.inj h
    exact .wait hw
  | timeout id =>
    simp only [userStep] at h
    split_ifs at h with hw
    obtain rfl := Option.some.inj h
    exact .timeout hw
  | waited id =>
    simp only [userStep] at h
    by_cases hl : s.latches id ≠ 0
    · rw [if_pos hl] at h
      cases h
    rw [if_neg hl] at h
    rw [not_not] at hl
    split at h
    · split_ifs at h with hf
      · obtain rfl := Option.some.inj h
        exact .error hl ‹_› hf
      · obtain rfl := Option.some.inj h
        exact .ok hl ‹_› hf
    · obtain rfl := Option.some.inj h
      exact .timedOut hl ‹_›
    · cases h

/-- A step is a step of one of the threads. -/
inductive Step (config : Config Data) (s : Store Data) : Event Data → Store Data → Prop
  | load {e s'} (h : LoadStep config s s') : Step config s (.load e) s'
  | transfer {e s'} (h : TransferStep s s') : Step config s (.transfer e) s'
  | dump {e s'} (h : DumpStep config s s') : Step config s (.dump e) s'
  | backendDump {e s'} (h : BackendDumpStep s s') : Step config s (.backendDump e) s'
  | backend {e s'} (h : BackendStep config s s') : Step config s (.backend e) s'
  | user {e s'} (h : UserStep s s') : Step config s (.user e) s'

theorem step_inv {e : Event Data} (h : s.step config e = some s') : Step config s e s' := by
  cases e with
  | load e => exact .load (loadStep_inv h)
  | transfer e => exact .transfer (transferStep_inv h)
  | dump e => exact .dump (dumpStep_inv h)
  | backendDump e => exact .backendDump (backendDumpStep_inv h)
  | backend e => exact .backend (backendStep_inv h)
  | user e => exact .user (userStep_inv h)

end Store

end UnifiedCache.CacheStore
