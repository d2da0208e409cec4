/-
  The layout of a task (`include/task.h`, `include/ptrace.h`): the offsets of the fields in
  `struct task_struct`, `struct thread_struct` and `struct pt_regs`, and the constants of
  the scheduler. A task owns a block of `STACK_SIZE` bytes; its `task_struct` lies at the
  block's start, its `thread_struct` right behind (for a forked task), and its kernel stack
  grows down from the block's end. All fields are 8 bytes; `long`s are kept as words.
-/
import HelloOS.Mm.Basic

namespace HelloOS.Sched

open HelloOS.Lib HelloOS.Mm

/-- `STACK_SIZE`. -/
def stackSize : U64 := 32768#64

/-- `get_current` on a stack pointer `rsp`: `rsp & ~32767UL`. -/
def getCurrent (rsp : U64) : U64 := rsp &&& ~~~32767#64

/-! ## `struct task_struct` -/

/-- `&((struct task_struct *)0)->state`, behind the two links of `list`. -/
def offState : U64 := 16#64

def offFlags : U64 := 24#64

def offThread : U64 := 40#64

def offPid : U64 := 56#64

/-- `sizeof(struct task_struct)`. -/
def sizeofTask : U64 := 88#64

/-- `TASK_RUNNING`. -/
def taskRunning : U64 := 1#64 <<< 0

/-- `TASK_UNINTERRUPTIBLE`. -/
def taskUninterruptible : U64 := 1#64 <<< 2

/-- `PF_KTHREAD`. -/
def pfKthread : U64 := 1#64 <<< 0

/-! ## `struct thread_struct` -/

def offRsp0 : U64 := 0#64

def offRip : U64 := 8#64

def offRsp : U64 := 16#64

def offFs : U64 := 24#64

def offGs : U64 := 32#64

/-- `sizeof(struct thread_struct)`. -/
def sizeofThread : U64 := 64#64

/-! ## `struct pt_regs` -/

/-- `&((struct pt_regs *)0)->rip`, behind 19 other words. -/
def offRegsRip : U64 := 152#64

/-- `sizeof(struct pt_regs)`. -/
def sizeofPtRegs : U64 := 192#64

end HelloOS.Sched
